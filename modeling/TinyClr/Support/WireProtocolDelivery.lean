import TinyClr.Support.WireProtocolPacket
import TinyClr.Support.WireProtocolSpec

/-!
# What a session delivers

A session reads the whole stream however the port hands it out, and makes visible what the
specification says about the stream.  A packet this side could have sent is recognised at the
first marker and delivered with its payload.
-/

namespace TinyClr.WireProtocol

open TinyClr.Library TinyClr.Support

/-! ### Reading a line dry -/

/-- No look at the clock sees the payload timeout. -/
def Line.OnTime (line : Line) : Prop := ∀ d ∈ line.deliveries, d.elapsed < c_PayloadTimeout

/-- The port hands out every byte of the stream. -/
def Line.Delivers (line : Line) : Prop :=
  line.stream.length ≤ (line.deliveries.filter fun d => 0 < d.bytes).length

variable (app : Application) {r : Receiver} {line : Line} {a : Await}

theorem Line.OnTime.elapsed (h : line.OnTime) : line.elapsed < c_PayloadTimeout := by
  unfold Line.elapsed
  cases hdeliveries : line.deliveries with
  | nil => decide
  | cons d ds => exact h d (by rw [hdeliveries]; exact List.mem_cons_self)

/-- A call for bytes uses up one delivery. -/
theorem receiveBytes_spec {size : Nat} (hsize : 0 < size) (line : Line) :
    ∃ chunk, chunk.length ≤ size ∧ line.stream = chunk ++ (receiveBytes line size).2.stream ∧
      (receiveBytes line size).2.deliveries = line.deliveries.tail ∧
      (line.Delivers → (receiveBytes line size).2.Delivers) ∧
      (receiveBytes line size).1 =
        if line.deliveries = [] ∨ chunk = [] then none else some chunk := by
  rw [receiveBytes, if_neg (by omega)]
  obtain ⟨stream, deliveries⟩ := line
  cases deliveries with
  | nil => exact ⟨[], Nat.zero_le _, rfl, rfl, id, rfl⟩
  | cons d ds =>
    simp only [List.tail_cons, Line.Delivers, List.filter_cons]
    by_cases hread : min d.bytes (min size stream.length) = 0
    · rw [if_pos hread]
      refine ⟨[], Nat.zero_le _, rfl, rfl, fun h => ?_, by simp⟩
      by_cases hbytes : 0 < d.bytes
      · have hempty : stream.length = 0 := by omega
        simp only [hempty, Nat.zero_le]
      · simpa only [hbytes, decide_false, Bool.false_eq_true, if_false] using h
    · rw [if_neg hread]
      refine ⟨stream.take (min d.bytes (min size stream.length)), ?_,
        (List.take_append_drop _ _).symm, rfl, fun h => ?_, ?_⟩
      · rw [List.length_take]
        omega
      · have hbytes : 0 < d.bytes := by omega
        simp only [hbytes, decide_true, if_true, List.length_cons] at h
        simp only [List.length_drop]
        omega
      · have hchunk : stream.take (min d.bytes (min size stream.length)) ≠ [] := by
          intro h
          have hlength := congrArg List.length h
          rw [List.length_take, List.length_nil] at hlength
          omega
        rw [if_neg (by simp [hchunk])]

theorem Await.Matches.size_pos (h : a.Matches r) : 0 < r.size := by
  obtain ⟨_, hholds⟩ := h
  cases hphase : a.phase with
  | header filled =>
    rw [hphase] at hholds
    have hlt := hholds.filled_lt
    rw [hholds.size_eq]
    omega
  | payload header received =>
    rw [hphase] at hholds
    have hlt := hholds.received_lt
    rw [hholds.size_eq]
    omega

theorem process_stops (hmatch : a.Matches r) (htime : line.elapsed < c_PayloadTimeout)
    (hreceive : (receiveBytes line r.size).1 = none) (fuel : Nat) :
    process app (fuel + 1) r line = some (r, (receiveBytes line r.size).2, []) := by
  obtain ⟨_, hholds⟩ := hmatch
  generalize hpair : receiveBytes line r.size = q at hreceive ⊢
  obtain ⟨read, line'⟩ := q
  simp only at hreceive
  subst hreceive
  cases hphase : a.phase with
  | header filled =>
    rw [hphase] at hholds
    have hstate := hholds.rxState_eq
    rw [process]
    split_ifs at hstate <;> rw [hstate] <;> simp only [hpair]
  | payload header received =>
    rw [hphase] at hholds
    rw [process, hholds.rxState_eq]
    simp only [htime, if_true, hpair]

/-- What one call of `Process` does, with `consumed` the bytes it reads. -/
structure Processed (app : Application) (a : Await) (line : Line) (r' : Receiver) (line' : Line)
    (events : List Event) (consumed : List UInt8) : Prop where
  stream_eq : line.stream = consumed ++ line'.stream
  events_eq : events = (a.bytes app consumed).2
  matches' : (a.bytes app consumed).1.Matches r'
  onTime : line'.OnTime
  delivers : line.Delivers → line'.Delivers
  deliveries_lt : line'.deliveries.length ≤ line.deliveries.length - 1

theorem process_spec (fuel : Nat) (hfuel : 5 * line.deliveries.length < fuel)
    (hmatch : a.Matches r) (htime : line.OnTime) :
    ∃ r' line' events consumed, process app fuel r line = some (r', line', events) ∧
      Processed app a line r' line' events consumed := by
  induction hn : line.deliveries.length using Nat.strong_induction_on
    generalizing line r a fuel with
  | _ n ih =>
    subst hn
    obtain ⟨chunk, hchunk, hstream, hdeliveries, hdelivers, hresult⟩ :=
      receiveBytes_spec hmatch.size_pos line
    have htime' : (receiveBytes line r.size).2.OnTime := by
      intro d hd
      rw [hdeliveries] at hd
      exact htime d (List.mem_of_mem_tail hd)
    have hshorter : (receiveBytes line r.size).2.deliveries.length = line.deliveries.length - 1 := by
      rw [hdeliveries, List.length_tail]
    by_cases hstop : line.deliveries = [] ∨ chunk = []
    · rw [if_pos hstop] at hresult
      obtain ⟨fuel, rfl⟩ : ∃ k, fuel = k + 1 := ⟨fuel - 1, by omega⟩
      refine ⟨r, _, [], [], process_stops app hmatch htime.elapsed hresult fuel, ?_, rfl, hmatch,
        htime', hdelivers, le_of_eq hshorter⟩
      rcases hstop with hnil | hnil
      · rw [receiveBytes, if_neg (Nat.pos_iff_ne_zero.mp hmatch.size_pos), hnil]
        rfl
      · rw [hnil] at hstream
        exact hstream
    · rw [if_neg hstop] at hresult
      obtain ⟨hsome, hchunk_ne⟩ := not_or.mp hstop
      have hpos : 0 < line.deliveries.length := List.length_pos_iff.mpr hsome
      obtain ⟨k, hk, r₁, hreach, hmatch₁⟩ := reaches_receive app hmatch htime.elapsed
        hchunk (Prod.ext hresult rfl : receiveBytes line r.size =
          (some chunk, (receiveBytes line r.size).2))
      obtain ⟨r', line', events, consumed, hprocess, hdone⟩ :=
        ih (receiveBytes line r.size).2.deliveries.length (by omega) (fuel - k) (by omega) hmatch₁
          htime' rfl
      refine ⟨r', line', (a.bytes app chunk).2 ++ events, chunk ++ consumed, ?_, ?_⟩
      · have hfuel' : fuel = fuel - k + k := by omega
        rw [hfuel', hreach, hprocess]
        rfl
      · have hshort := hdone.deliveries_lt
        refine ⟨?_, ?_, ?_, hdone.onTime, fun h => hdone.delivers (hdelivers h), by omega⟩
        · rw [List.append_assoc, ← hdone.stream_eq, ← hstream]
        · rw [bytes_append, hdone.events_eq]
        · rw [bytes_append]
          exact hdone.matches'

/-- Enough calls read the stream, and show what its bytes amount to. -/
theorem session_spec (fuel calls : Nat) (hfuel : 5 * line.deliveries.length < fuel)
    (hcalls : line.deliveries.length ≤ calls) (hmatch : a.Matches r) (htime : line.OnTime)
    (hdelivers : line.Delivers) :
    ∃ r' line', session app fuel calls r line =
        some (r', line', (a.bytes app line.stream).2) ∧ line'.stream = [] ∧
      (a.bytes app line.stream).1.Matches r' := by
  induction calls generalizing line r a with
  | zero =>
    have hnil : line.deliveries = [] := List.length_eq_zero_iff.mp (by omega)
    have hempty : line.stream = [] := by
      rw [Line.Delivers, hnil] at hdelivers
      exact List.length_eq_zero_iff.mp (Nat.le_zero.mp hdelivers)
    rw [hempty]
    exact ⟨r, line, rfl, hempty, hmatch⟩
  | succ calls ih =>
    obtain ⟨r₁, line₁, events, consumed, hprocess, hdone⟩ :=
      process_spec app fuel hfuel hmatch htime
    have hshort := hdone.deliveries_lt
    obtain ⟨r', line', hsession, hempty, hmatch'⟩ := ih (by omega) (by omega) hdone.matches'
      hdone.onTime (hdone.delivers hdelivers)
    rw [hdone.stream_eq, bytes_append]
    refine ⟨r', line', ?_, hempty, hmatch'⟩
    rw [session, hprocess]
    simp only [Option.bind_eq_bind, Option.bind_some, hsession, hdone.events_eq]

/-! ### Finding a packet -/

/-- Neither marker starts in the first `n` bytes. -/
def NoMarkerBefore (n : Nat) (stream : List UInt8) : Prop :=
  ∀ i < n, ∀ marker : Marker, ¬ marker.signature <+: stream.drop i

theorem marker_of_synched {buf : List UInt8} (h : synched buf = true)
    (hlength : signatureSize ≤ buf.length) : ∃ marker : Marker, marker.signature <+: buf := by
  rw [synched, startsMarker_eq_iff, Nat.min_eq_right hlength] at h
  rcases h with h | h
  · exact ⟨.debugger, List.prefix_iff_eq_take.mpr h.symm⟩
  · exact ⟨.none, List.prefix_iff_eq_take.mpr h.symm⟩

theorem resync_lt {n : Nat} {ys rest : List UInt8} (hnone : NoMarkerBefore n (ys ++ rest))
    (hstart : ys.length < n + (resync synched ys).length) :
    (resync synched ys).length < signatureSize := by
  by_contra hlong
  have hsynched : synched (resync synched ys) = true := by
    rcases resync_accepted synched ys with h | h
    · rw [h] at hlong
      exact absurd (by decide) hlong
    · exact h
  obtain ⟨marker, hmarker⟩ := marker_of_synched hsynched (Nat.le_of_not_lt hlong)
  have hle := length_resync_le synched ys
  refine hnone (ys.length - (resync synched ys).length) (by omega) marker ?_
  rw [List.drop_append_of_le_length (by omega),
    ← List.suffix_iff_eq_drop.mp (resync_suffix synched ys)]
  exact hmarker.trans (List.prefix_append _ _)

theorem bytes_resync (app : Application) (seq : UInt16) (xs : List UInt8)
    (hshort : ∀ ys, ys <+: xs → (resync synched ys).length < headerSize) :
    (⟨.header [], seq⟩ : Await).bytes app xs = (⟨.header (resync synched xs), seq⟩, []) := by
  induction xs using List.reverseRecOn with
  | nil => rfl
  | append_singleton xs b ih =>
    rw [bytes_append, ih fun ys h => hshort ys (h.trans (List.prefix_append _ _))]
    simp only [Await.bytes, Await.byte, List.nil_append, List.append_nil]
    rw [resync_append synched synched_prefixClosed, if_pos (hshort _ (List.prefix_refl _))]

theorem bytes_noise_header (app : Application) (seq : UInt16) {g header rest : List UInt8}
    (hnone : NoMarkerBefore g.length (g ++ header ++ rest)) (hlength : header.length = headerSize)
    (hsynched : synched header = true) :
    (⟨.header [], seq⟩ : Await).bytes app (g ++ header) = finishHeader app seq header := by
  have hkept : resync synched (g ++ header) = header := by
    refine eq_of_suffix (resync_suffix synched _) (List.suffix_append g header)
      (Nat.le_antisymm ?_ (length_le_resync synched (List.suffix_append g header) hsynched))
    by_contra hlong
    have hlt := resync_lt hnone (by rw [List.length_append]; omega)
    rw [hlength] at hlong
    exact hlong (Nat.le_trans (Nat.le_of_lt hlt) (by decide))
  obtain ⟨init, b, hsplit⟩ : ∃ init b, g ++ header = init ++ [b] := by
    rcases List.eq_nil_or_concat' (g ++ header) with h | ⟨init, b, h⟩
    · have hzero := congrArg List.length h
      rw [List.length_append, hlength] at hzero
      exact absurd hzero (by simp [headerSize])
    · exact ⟨init, b, h⟩
  have hinit : init.length + 1 = g.length + headerSize := by
    have hall := congrArg List.length hsplit
    rw [List.length_append, List.length_append, hlength, List.length_singleton] at hall
    exact hall.symm
  have hshort : ∀ ys, ys <+: init → (resync synched ys).length < headerSize := by
    intro ys hys
    by_contra hlong
    obtain ⟨more, hmore⟩ := hys
    have hle := congrArg List.length hmore
    rw [List.length_append] at hle
    have hstream : ys ++ (more ++ [b] ++ rest) = g ++ header ++ rest := by
      rw [hsplit, ← hmore]
      simp only [List.append_assoc]
    have hlt := resync_lt (n := g.length) (hstream ▸ hnone) (by omega)
    exact hlong (Nat.lt_of_lt_of_le hlt (by decide))
  rw [hsplit, bytes_append, bytes_resync app seq init hshort]
  simp only [Await.bytes, Await.byte, List.nil_append, List.append_nil]
  rw [resync_append synched synched_prefixClosed, ← hsplit, hkept, if_neg (by omega)]

/-! ### Delivering it -/

/-- The application takes the packet, with a buffer if it has a payload. -/
def Application.Takes (app : Application) (p : Packet) (payload : List UInt8) : Prop :=
  ∃ buffer, app.processHeader p = .accept buffer ∧ (payload = [] ∨ buffer = true)

variable {p : Packet} {payload : List UInt8}

theorem finishHeader_shows (h : p.Sealed payload) (seq : UInt16) :
    ∃ events, (finishHeader app seq p.bytes).2 = .processHeader p :: events := by
  simp only [finishHeader, if_pos h.verifyHeader_bytes, ofBytes_bytes h.signature_length]
  cases app.processHeader p with
  | reject =>
    simp only [refuseHeader]
    split_ifs
    · exact ⟨_, rfl⟩
    · exact ⟨_, rfl⟩
  | accept buffer =>
    by_cases hsize : p.size ≠ 0
    · simp only [if_pos hsize]
      exact ⟨_, rfl⟩
    · simp only [if_neg hsize]
      exact ⟨_, rfl⟩

theorem finishHeader_delivers (h : p.Sealed payload) (hsize : p.size.toNat = payload.length)
    (htakes : app.Takes p payload) (seq : UInt16) :
    (finishHeader app seq p.bytes).2 ++
        ((finishHeader app seq p.bytes).1.bytes app payload).2 =
      [.processHeader p, .processPayload p payload] := by
  obtain ⟨buffer, haccept, hbuffer⟩ := htakes
  have hread := ofBytes_bytes h.signature_length
  simp only [finishHeader, if_pos h.verifyHeader_bytes, hread, haccept]
  by_cases hempty : payload = []
  · subst hempty
    have hzero : p.size = 0 := UInt32.toNat_inj.mp hsize
    have hverify : ∀ b, verifyPayload p (if b = true then some [] else none) = true := by
      intro b
      cases b with
      | true => exact h.verifyPayload_some
      | false => exact h.verifyPayload_none hzero
    simp only [ne_eq, hzero, not_true_eq_false, if_false, finishPayload, hread, hverify, if_true,
      Await.bytes, List.append_nil]
    cases buffer <;> rfl
  · have hpositive : 0 < payload.length := List.length_pos_iff.mpr hempty
    have hsize_ne : p.size ≠ 0 := by
      intro hzero
      rw [hzero] at hsize
      exact absurd hsize.symm (Nat.pos_iff_ne_zero.mp hpositive)
    rw [if_pos hsize_ne, if_pos (hbuffer.resolve_left hempty)]
    rw [bytes_payload app _ p.bytes [] payload (by rw [hread, hsize]; exact hpositive)
      (by rw [hread, hsize, List.length_nil, Nat.zero_add]), hread, hsize, List.nil_append,
      if_neg (Nat.lt_irrefl _), finishPayload, hread, if_pos h.verifyPayload_some]
    rfl

/-! ### Sessions from the start -/

/-- A line that hands out all of `stream` in time. -/
structure Line.Carries (line : Line) (stream : List UInt8) : Prop where
  stream_eq : line.stream = stream
  onTime : line.OnTime
  delivers : line.Delivers

/-- However a line carries `stream`, a session that is called often enough reads it all and
    shows `events`. -/
def Shows (app : Application) (stream : List UInt8) (events : List Event) : Prop :=
  ∀ line : Line, line.Carries stream →
    ∀ fuel calls, 5 * line.deliveries.length + 1 < fuel → line.deliveries.length ≤ calls →
      ∃ r' line', session app fuel calls .prepareReception line = some (r', line', events) ∧
        line'.stream = []

theorem shows_bytes (app : Application) (stream : List UInt8) :
    Shows app stream ((⟨.header [], 0⟩ : Await).bytes app stream).2 := by
  rintro line ⟨rfl, htime, hdelivers⟩ fuel calls hfuel hcalls
  cases calls with
  | zero =>
    have hnil : line.deliveries = [] := List.length_eq_zero_iff.mp (Nat.le_zero.mp hcalls)
    have hempty : line.stream = [] := by
      rw [Line.Delivers, hnil] at hdelivers
      exact List.length_eq_zero_iff.mp (Nat.le_zero.mp hdelivers)
    rw [hempty]
    exact ⟨_, line, rfl, hempty⟩
  | succ calls =>
    obtain ⟨r₀, hreach, hmatch⟩ := reaches_initialize app
      (r := .prepareReception) rfl rfl line
    obtain ⟨fuel, rfl⟩ : ∃ k, fuel = k + 1 := ⟨fuel - 1, by omega⟩
    obtain ⟨r₁, line₁, events, consumed, hprocess, hdone⟩ :=
      process_spec app fuel (by omega) hmatch htime
    have hshort := hdone.deliveries_lt
    obtain ⟨r', line', hsession, hempty, _⟩ := session_spec app (fuel + 1) calls (by omega)
      (by omega) hdone.matches' hdone.onTime (hdone.delivers hdelivers)
    rw [hdone.stream_eq]
    refine ⟨r', line', ?_, hempty⟩
    rw [session, hreach, hprocess]
    simp only [Option.map_some, Option.bind_eq_bind, Option.bind_some, List.nil_append, hsession]
    rw [hdone.events_eq]
    exact congrArg some (Prod.ext rfl (Prod.ext rfl
      (congrArg Prod.snd (bytes_append app ⟨.header [], 0⟩ consumed line₁.stream)).symm))

/-- What `PrepareRequest` or `PrepareReply` builds for a payload. -/
def Sent (p : Packet) (payload : List UInt8) : Prop :=
  payload.length < 2 ^ 32 ∧
    ((∃ szMarker seq cmd flags,
        p = prepareRequest szMarker seq cmd flags (.ofNat payload.length) payload) ∨
      ∃ szMarker seq req flags,
        p = prepareReply szMarker seq req flags (.ofNat payload.length) payload)

theorem Sent.sealed (h : Sent p payload) : p.Sealed payload := by
  rcases h.2 with ⟨szMarker, seq, cmd, flags, rfl⟩ | ⟨szMarker, seq, req, flags, rfl⟩
  · exact prepareRequest_sealed szMarker seq cmd flags _ payload
  · exact prepareReply_sealed szMarker seq req flags _ payload

theorem Sent.size_eq (h : Sent p payload) : p.size.toNat = payload.length := by
  have hsize : p.size = .ofNat payload.length := by
    rcases h.2 with ⟨szMarker, seq, cmd, flags, rfl⟩ | ⟨szMarker, seq, req, flags, rfl⟩
    · rfl
    · rfl
  rw [hsize, UInt32.toNat_ofNat', Nat.mod_eq_of_lt h.1]

theorem Sent.synched (h : Sent p payload) : synched p.bytes = true := by
  obtain ⟨marker, hmarker⟩ := h.sealed.signature_eq
  rw [WireProtocol.synched, bytes_length h.sealed.signature_length, startsMarker_eq_iff]
  have htake : p.bytes.take 8 = marker.signature := by
    rw [← hmarker]
    simp only [Packet.bytes, List.append_assoc]
    exact List.take_left' h.sealed.signature_length
  have hmin : min headerSize signatureSize = 8 := rfl
  rw [hmin, htake]
  cases marker
  · exact Or.inr rfl
  · exact Or.inl rfl

/-- What a session shows is a function of the stream alone, and noise without a marker does not
    keep a packet behind it from being delivered, once, with its payload. -/
theorem receiver_shows_stream (app : Application) :
    (∀ stream, ∃ events, Shows app stream events) ∧
      ∀ g p payload, Sent p payload → NoMarkerBefore g.length (g ++ p.bytes ++ payload) →
        ∃ events, Shows app (g ++ p.bytes ++ payload) (.processHeader p :: events) ∧
          (app.Takes p payload → events = [.processPayload p payload]) := by
  refine ⟨fun stream => ⟨_, shows_bytes app stream⟩, fun g p payload hsent hnone => ?_⟩
  have hshows := shows_bytes app (g ++ p.bytes ++ payload)
  rw [bytes_append, bytes_noise_header app 0 hnone
    (bytes_length hsent.sealed.signature_length) hsent.synched] at hshows
  obtain ⟨events, hfirst⟩ := finishHeader_shows app hsent.sealed 0
  simp only [hfirst, List.cons_append] at hshows
  refine ⟨_, hshows, fun htakes => ?_⟩
  have hall := finishHeader_delivers app hsent.sealed hsent.size_eq htakes 0
  rw [hfirst, List.cons_append] at hall
  exact (List.cons.inj hall).2

def takesAll : Application :=
  { szMarker := .debugger, processHeader := fun _ => .accept true, headerSends := fun _ => 0,
    payloadSends := fun _ _ => 0 }

/-- A request with a payload of one byte -/
def pingRequest : Packet := prepareRequest .debugger 7 3 0 1 [0x4D]

/-- Two bytes that look like the start of a marker, then the request, handed out one by one. -/
theorem receiver_shows_stream_ping :
    ∃ r' line', session takesAll 300 40 .prepareReception
        ⟨[0x4D, 0x53] ++ pingRequest.bytes ++ [0x4D], List.replicate 40 ⟨1, 0⟩⟩ =
      some (r', line', [.processHeader pingRequest, .processPayload pingRequest [0x4D]]) ∧
      line'.stream = [] := by
  have hsent : Sent pingRequest [0x4D] :=
    ⟨by decide, Or.inl ⟨.debugger, 7, 3, 0, rfl⟩⟩
  have hnone : NoMarkerBefore 2 ([0x4D, 0x53] ++ pingRequest.bytes ++ [0x4D]) := by
    intro i hi marker hprefix
    have hthird := congrArg (List.take 3) (List.prefix_iff_eq_take.mp hprefix)
    cases marker <;> match i, hi with
      | 0, _ => exact absurd hthird (by decide)
      | 1, _ => exact absurd hthird (by decide)
  obtain ⟨events, hshows, htaken⟩ :=
    (receiver_shows_stream takesAll).2 [0x4D, 0x53] pingRequest [0x4D] hsent hnone
  rw [htaken ⟨true, rfl, Or.inr rfl⟩] at hshows
  refine hshows _ ⟨rfl, ?_, ?_⟩ 300 40 (by rw [List.length_replicate]; decide)
    (by rw [List.length_replicate])
  · intro d hd
    rw [(List.mem_replicate.mp hd).2]
    decide
  · unfold Line.Delivers
    decide

end TinyClr.WireProtocol
