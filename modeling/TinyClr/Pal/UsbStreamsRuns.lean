import TinyClr.Library.Runs
import TinyClr.Pal.UsbStreamsSpec

/-!
# USB streams over whole runs

As long as no queue is cleared while its first packet is partly read, and no write gives up with only
its empty last packet missing, every read returns the bytes that come next, and a write that returns
its full size has packetized its data.
-/

namespace TinyClr.UsbStreams

open TinyClr.Library

/-! ### Packets of a write -/

structure Packetized (max : Nat) (data : List UInt8) (queued : List (List UInt8)) : Prop where
  flatten : queued.flatten = data
  full : ∀ p ∈ queued.dropLast, p.length = max
  last : ∀ p ∈ queued.getLast?, p.length < max

theorem packetized_nil (max : Nat) : Packetized max [] [] := ⟨rfl, by simp, by simp⟩

theorem packetized_concat {max : Nat} {queued : List (List UInt8)} {last : List UInt8}
    (hfull : ∀ p ∈ queued, p.length = max) (hlast : last.length < max) :
    Packetized max (queued.flatten ++ last) (queued ++ [last]) := by
  refine ⟨by simp, ?_, ?_⟩
  · rw [List.dropLast_concat]
    exact hfull
  · rw [List.getLast?_concat]
    rintro p hp
    obtain rfl := Option.some.inj hp
    exact hlast

/-! ### The invariant -/

structure EndpointInv (e : Endpoint) (q : Queue) (ps : List Packet64) : Prop where
  pos : 0 < e.maxPacketSize
  le : e.maxPacketSize ≤ USB_MAX_DATA_PACKET_SIZE
  holds : q.Holds ps
  sends : e.isTxQueue = true → e.currentPacketOffset = 0
  receives : e.isTxQueue = false → Readable e.currentPacketOffset.toNat ps ∧
    e.received = e.returned ++ pending e.currentPacketOffset.toNat ps

/-- A write of which the packets `queued` have been put into the queue, all of them full -/
structure WritingInv (e : Endpoint) (w : Writing) : Prop where
  sends : e.isTxQueue = true
  queue : e.queue.isSome = true
  data : w.queued.flatten ++ w.rest = w.data
  full : ∀ p ∈ w.queued, p.length = e.maxPacketSize
  total : w.totWrite = w.queued.flatten.length

structure Inv (s : State) : Prop where
  endpoints : ∀ ep q, (s.endpoints ep).queue = some q → ∃ ps, EndpointInv (s.endpoints ep) q ps
  rx : ∀ i, (s.streams i).rxEP ≠ USB_NULL_ENDPOINT →
    (s.endpoints (s.streams i).rxEP).isTxQueue = false
  tx : ∀ i, (s.streams i).txEP ≠ USB_NULL_ENDPOINT →
    (s.endpoints (s.streams i).txEP).isTxQueue = true
  writing : ∀ w, s.writing = some w → WritingInv (s.endpoints w.endpoint) w

/-- What no event changes about an endpoint -/
structure SameKind (e e' : Endpoint) : Prop where
  isTxQueue : e'.isTxQueue = e.isTxQueue
  maxPacketSize : e'.maxPacketSize = e.maxPacketSize
  queue : e'.queue.isSome = e.queue.isSome

theorem SameKind.refl (e : Endpoint) : SameKind e e := ⟨rfl, rfl, rfl⟩

theorem WritingInv.congr {e e' : Endpoint} {w : Writing} (h : WritingInv e w) (hkind : SameKind e e') :
    WritingInv e' w :=
  ⟨hkind.isTxQueue.trans h.sends, hkind.queue.trans h.queue, h.data,
    fun p hp => (h.full p hp).trans hkind.maxPacketSize.symm, h.total⟩

section Step

variable {s s' : State} {ep : Nat} {e e' : Endpoint} {q q' : Queue} {ps : List Packet64}

theorem Inv.congr (h : Inv s) (hkind : ∀ ep, SameKind (s.endpoints ep) (s'.endpoints ep))
    (hendpoints : ∀ ep q, (s'.endpoints ep).queue = some q → ∃ ps, EndpointInv (s'.endpoints ep) q ps)
    (hstreams : s'.streams = s.streams) (hwriting : s'.writing = s.writing) : Inv s' := by
  refine ⟨hendpoints, fun i hi => ?_, fun i hi => ?_, fun w hw => ?_⟩
  · rw [hstreams] at hi ⊢
    exact (hkind _).isTxQueue.trans (h.rx i hi)
  · rw [hstreams] at hi ⊢
    exact (hkind _).isTxQueue.trans (h.tx i hi)
  · exact (h.writing w (hwriting ▸ hw)).congr (hkind _)

theorem setEndpoint_self : (s.setEndpoint ep e).endpoints ep = e := Function.update_self _ _ _

theorem setEndpoint_of_ne {x : Nat} (h : x ≠ ep) :
    (s.setEndpoint ep e).endpoints x = s.endpoints x := Function.update_of_ne h _ _

theorem Inv.setEndpoint (h : Inv s) (hkind : SameKind (s.endpoints ep) e)
    (hendpoint : ∀ q, e.queue = some q → ∃ ps, EndpointInv e q ps) : Inv (s.setEndpoint ep e) := by
  refine h.congr (fun x => ?_) (fun x q hq => ?_) rfl rfl
  · by_cases hx : x = ep
    · subst hx
      rw [setEndpoint_self]
      exact hkind
    · rw [setEndpoint_of_ne hx]
      exact .refl _
  · by_cases hx : x = ep
    · subst hx
      rw [setEndpoint_self] at hq ⊢
      exact hendpoint q hq
    · rw [setEndpoint_of_ne hx] at hq ⊢
      exact h.endpoints x q hq

/-! ### Clearing a queue -/

theorem sameKind_clear (e : Endpoint) : SameKind e e.clear := by
  refine ⟨rfl, rfl, ?_⟩
  rw [Endpoint.clear, Option.isSome_map]

theorem clear_inv (h : ∀ q, e.queue = some q → ∃ ps, EndpointInv e q ps)
    (hoffset : e.isTxQueue = false → e.currentPacketOffset = 0) :
    ∀ q, e.clear.queue = some q → ∃ ps, EndpointInv e.clear q ps := by
  intro q hq
  obtain ⟨q₀, hq₀, rfl⟩ := Option.map_eq_some_iff.mp hq
  obtain ⟨ps, hinv⟩ := h q₀ hq₀
  refine ⟨[], hinv.pos, hinv.le, Queue.clear_holds ?_, hinv.sends, fun hrx => ?_⟩
  · exact Nat.lt_of_le_of_lt (Nat.zero_le _) hinv.holds.ring.head_lt
  · have hzero : e.clear.currentPacketOffset = 0 := hoffset hrx
    rw [hzero]
    exact ⟨⟨by simp, Or.inl rfl⟩, rfl⟩

theorem Inv.clearEndpoint (h : Inv s) {ep : Nat} (hoffset : ep ≠ USB_NULL_ENDPOINT →
      (s.endpoints ep).isTxQueue = false → (s.endpoints ep).currentPacketOffset = 0) :
    Inv (s.clearEndpoint ep) := by
  unfold State.clearEndpoint
  split
  · rename_i hep
    exact h.setEndpoint (sameKind_clear _) (clear_inv (h.endpoints ep) (hoffset hep.1))
  · exact h

theorem Inv.clearQueues (h : Inv s) {clrRxQueue clrTxQueue : Bool} (hoffset : clrRxQueue = true →
      ∀ ep, (s.endpoints ep).isTxQueue = false → (s.endpoints ep).currentPacketOffset = 0) :
    Inv (s.clearQueues clrRxQueue clrTxQueue) := by
  have hcases : ∀ ep, (s.clearQueues clrRxQueue clrTxQueue).endpoints ep = s.endpoints ep ∨
      (s.clearQueues clrRxQueue clrTxQueue).endpoints ep = (s.endpoints ep).clear ∧
        ((s.endpoints ep).isTxQueue = false → clrRxQueue = true) := by
    intro ep
    by_cases hclear : (s.endpoints ep).queue.isSome = true ∧
        (if (s.endpoints ep).isTxQueue then clrTxQueue else clrRxQueue) = true
    · refine Or.inr ⟨if_pos hclear, fun hrx => ?_⟩
      simpa [hrx] using hclear.2
    · exact Or.inl (if_neg hclear)
  refine h.congr (fun ep => ?_) (fun ep q hq => ?_) rfl rfl
  · rcases hcases ep with heq | ⟨heq, -⟩
    · rw [heq]
      exact .refl _
    · rw [heq]
      exact sameKind_clear _
  · rcases hcases ep with heq | ⟨heq, hrx⟩
    · rw [heq] at hq ⊢
      exact h.endpoints ep q hq
    · rw [heq] at hq ⊢
      exact clear_inv (h.endpoints ep) (fun hrx' => hoffset (hrx hrx') ep hrx') q hq

/-! ### Interrupts -/

theorem rxEnqueue_inv (h : Inv s) {bytes : List UInt8} (hqueue : (s.endpoints ep).queue.isSome = true)
    (hrx : (s.endpoints ep).isTxQueue = false)
    (hsize : bytes.length ≤ (s.endpoints ep).maxPacketSize) :
    ∃ s' r, s.rxEnqueue ep bytes = some (s', r) ∧ Inv s' := by
  obtain ⟨q, hq⟩ := Option.isSome_iff_exists.mp hqueue
  obtain ⟨ps, hinv⟩ := h.endpoints ep q hq
  unfold State.rxEnqueue
  dsimp only
  rw [hq]
  dsimp only
  split
  · exact ⟨s, _, rfl, h⟩
  · rename_i i q' hpush
    obtain ⟨-, -, hholds⟩ := hinv.holds.push_some hpush
    refine ⟨_, _, rfl, h.setEndpoint ⟨rfl, rfl, by rw [hq]; rfl⟩ fun q'' hq'' => ?_⟩
    obtain rfl := Option.some.inj hq''
    obtain ⟨hreadable, hreceived⟩ := hinv.receives hrx
    have hle := hinv.le
    have hwhole : Packet64.Whole ⟨bytes.length, bytes ++ (q'.packet i).buffer.drop bytes.length⟩ :=
      ⟨by
        show bytes.length ≤ _
        omega, by
        show bytes.length ≤ (bytes ++ (q'.packet i).buffer.drop bytes.length).length
        rw [List.length_append]
        omega⟩
    have hbytes : Packet64.bytes ⟨bytes.length, bytes ++ (q'.packet i).buffer.drop bytes.length⟩ =
        bytes := List.take_left
    obtain ⟨hreadable', hpending⟩ := hreadable.concat hwhole
    refine ⟨_, hinv.pos, hinv.le, hholds _, fun htx => ?_, fun _ => ⟨hreadable', ?_⟩⟩
    · exact absurd (hrx.symm.trans htx) (by decide)
    · show (s.endpoints ep).received ++ bytes = _
      rw [hpending, hbytes, hreceived, List.append_assoc]

theorem txDequeue_inv (h : Inv s) (done : Bool) (hqueue : (s.endpoints ep).queue.isSome = true)
    (htx : (s.endpoints ep).isTxQueue = true) :
    ∃ s' r, s.txDequeue ep done = some (s', r) ∧ Inv s' := by
  obtain ⟨q, hq⟩ := Option.isSome_iff_exists.mp hqueue
  obtain ⟨ps, hinv⟩ := h.endpoints ep q hq
  unfold State.txDequeue
  dsimp only
  rw [hq]
  dsimp only
  split
  · split
    · exact ⟨s, _, rfl, h⟩
    · rename_i i q' hpop
      refine ⟨_, _, rfl, h.setEndpoint ⟨rfl, rfl, by rw [hq]; rfl⟩ fun q'' hq'' => ?_⟩
      obtain rfl := Option.some.inj hq''
      obtain ⟨p, rest, rfl, hholds⟩ := hinv.holds.pop_some hpop
      exact ⟨rest, hinv.pos, hinv.le, hholds, hinv.sends,
        fun hrx => absurd (hrx.symm.trans htx) (by decide)⟩
  · exact ⟨s, _, rfl, h⟩

theorem stateCallback_inv (h : Inv s) (hoffset : s.currentState ≠ s.deviceState →
      s.currentState = .configured ∨ s.deviceState = .configured →
      ∀ ep, (s.endpoints ep).isTxQueue = false → (s.endpoints ep).currentPacketOffset = 0) :
    Inv s.stateCallback := by
  unfold State.stateCallback
  split
  · exact h
  · rename_i hchanges
    have hstate : ∀ {t : State} (state : DeviceState), Inv t →
        Inv { t with currentState := state } := fun state ht =>
      ht.congr (fun _ => .refl _) ht.endpoints rfl rfl
    dsimp only
    by_cases hleaves : s.currentState = .configured
    · have henters : s.deviceState ≠ .configured := fun heq => hchanges (hleaves.trans heq.symm)
      have hsame : (s.clearQueues true true).deviceState = s.deviceState := rfl
      rw [if_pos hleaves, hsame, if_neg henters]
      exact hstate _ (h.clearQueues fun _ => hoffset hchanges (Or.inl hleaves))
    · rw [if_neg hleaves]
      split
      · rename_i henters
        exact (hstate _ h).clearQueues fun _ => hoffset hchanges (Or.inr henters)
      · exact hstate _ h

/-! ### Calls on streams -/

theorem Inv.setStream (h : Inv s) (streamIndex : Nat) (stream : StreamMap)
    (hrx : stream.rxEP ≠ USB_NULL_ENDPOINT → (s.endpoints stream.rxEP).isTxQueue = false)
    (htx : stream.txEP ≠ USB_NULL_ENDPOINT → (s.endpoints stream.txEP).isTxQueue = true) :
    Inv { s with streams := Function.update s.streams streamIndex stream } := by
  have hcases : ∀ i, Function.update s.streams streamIndex stream i = stream ∨
      Function.update s.streams streamIndex stream i = s.streams i := by
    intro i
    by_cases hne : i = streamIndex
    · subst hne
      exact Or.inl (Function.update_self _ _ _)
    · exact Or.inr (Function.update_of_ne hne _ _)
  refine ⟨h.endpoints, fun i hi => ?_, fun i hi => ?_, h.writing⟩
  · dsimp only at hi ⊢
    rcases hcases i with heq | heq <;> rw [heq] at hi ⊢
    · exact hrx hi
    · exact h.rx i hi
  · dsimp only at hi ⊢
    rcases hcases i with heq | heq <;> rw [heq] at hi ⊢
    · exact htx hi
    · exact h.tx i hi

theorem openStream_inv (h : Inv s) (streamIndex writeEP readEP : Nat) :
    Inv (s.openStream streamIndex writeEP readEP).1 := by
  unfold State.openStream
  dsimp only
  split
  · exact h
  split
  · exact h
  split
  · exact h
  split
  · exact h
  split
  · exact h
  rename_i hdirection
  split
  · exact h
  · rw [not_or, not_and, not_and] at hdirection
    refine h.setStream streamIndex ⟨readEP, writeEP⟩ (fun hep => ?_) fun hep => ?_
    · simpa using hdirection.1 hep
    · simpa using hdirection.2 hep

theorem discardData_inv (h : Inv s) {streamIndex : Nat} {fTx : Bool}
    (hoffset : s.initialized = true → s.configuration = true → fTx = false →
      (s.streams streamIndex).rxEP ≠ USB_NULL_ENDPOINT →
      (s.endpoints (s.streams streamIndex).rxEP).currentPacketOffset = 0) :
    Inv (s.discardData streamIndex fTx) := by
  unfold State.discardData
  split
  · exact h
  · rename_i hready
    refine h.clearEndpoint fun hep hrx => ?_
    cases fTx with
    | true => exact absurd ((h.tx streamIndex hep).symm.trans hrx) (by decide)
    | false => exact hoffset (by simp_all) (by simp_all) rfl hep

theorem closeStream_inv (h : Inv s) {streamIndex : Nat}
    (hoffset : s.initialized = true → streamIndex < USB_MAX_QUEUES →
      (s.streams streamIndex).rxEP ≠ USB_NULL_ENDPOINT →
      (s.endpoints (s.streams streamIndex).rxEP).currentPacketOffset = 0) :
    Inv (s.closeStream streamIndex).1 := by
  unfold State.closeStream
  split
  · exact h
  · rename_i hinitialized
    split
    · exact h
    · rename_i hindex
      have hfirst : Inv (s.clearEndpoint (s.streams streamIndex).rxEP) :=
        h.clearEndpoint fun hep _ => hoffset (by simpa using hinitialized) (by omega) hep
      have hstreams : (s.clearEndpoint (s.streams streamIndex).rxEP).streams = s.streams := by
        unfold State.clearEndpoint
        split <;> rfl
      have hboth : Inv ((s.clearEndpoint (s.streams streamIndex).rxEP).clearEndpoint
          (s.streams streamIndex).txEP) := hfirst.clearEndpoint fun hep hrx => by
        have htx := hfirst.tx streamIndex (by rw [hstreams]; exact hep)
        rw [hstreams] at htx
        exact absurd (htx.symm.trans hrx) (by decide)
      exact hboth.setStream streamIndex ⟨USB_NULL_ENDPOINT, USB_NULL_ENDPOINT⟩
        (fun hep => absurd rfl hep) fun hep => absurd rfl hep

/-! ### Reads -/

/-- The endpoint that `Read` takes bytes from -/
def State.readsFrom (s : State) (streamIndex : Nat) : Option Nat :=
  let ep := (s.streams streamIndex).rxEP
  if streamIndex < USB_MAX_QUEUES ∧ s.deviceState = .configured ∧ ep ≠ USB_NULL_ENDPOINT ∧
      (s.endpoints ep).queue.isSome then some ep
  else none

/-- A read returns the next bytes of what has been received, and nothing else. -/
def ReadsNext (s : State) (streamIndex : Nat) (size : UInt32) (s' : State) (r : Reply) : Prop :=
  ∃ bytes, r = .data bytes true ∧
    match s.readsFrom streamIndex with
    | none => bytes = []
    | some ep =>
        bytes = ((s.endpoints ep).received.drop (s.endpoints ep).returned.length).take size.toNat ∧
        (s'.endpoints ep).received = (s.endpoints ep).received ∧
        (s'.endpoints ep).returned = (s.endpoints ep).returned ++ bytes

theorem read_inv (h : Inv s) (streamIndex : Nat) (size : UInt32) :
    ∃ s' r, s.read streamIndex size = some (s', r) ∧ ReadsNext s streamIndex size s' r ∧ Inv s' := by
  have hnone : s.readsFrom streamIndex = none → ReadsNext s streamIndex size s (.data [] true) := by
    intro hfrom
    refine ⟨[], rfl, ?_⟩
    rw [hfrom]
  unfold State.read
  by_cases hindex : streamIndex ≥ USB_MAX_QUEUES
  · rw [if_pos hindex]
    exact ⟨s, _, rfl, hnone (if_neg fun h => by omega), h⟩
  rw [if_neg hindex]
  by_cases hconfigured : s.deviceState ≠ .configured
  · rw [if_pos hconfigured]
    exact ⟨s, _, rfl, hnone (if_neg fun h => hconfigured h.2.1), h⟩
  rw [if_neg hconfigured]
  dsimp only
  by_cases hnull : (s.streams streamIndex).rxEP = USB_NULL_ENDPOINT
  · rw [if_pos hnull]
    exact ⟨s, _, rfl, hnone (if_neg fun h => h.2.2.1 hnull), h⟩
  rw [if_neg hnull]
  have hrx := h.rx streamIndex hnull
  rcases hq : (s.endpoints (s.streams streamIndex).rxEP).queue with _ | q
  · exact ⟨s, _, rfl, hnone (if_neg fun h => by rw [hq] at h; exact absurd h.2.2.2 (by decide)), h⟩
  · have hfrom : s.readsFrom streamIndex = some (s.streams streamIndex).rxEP :=
      if_pos ⟨by omega, not_not.mp hconfigured, hnull, by rw [hq]; rfl⟩
    generalize (s.streams streamIndex).rxEP = ep at *
    obtain ⟨ps, hinv⟩ := h.endpoints ep q hq
    obtain ⟨hreadable, hreceived⟩ := hinv.receives hrx
    obtain ⟨offset, q', ps', hloop, hdata, hholds, hreadable', hpending⟩ := readLoop_spec ps
      (q.data.length + 1) (s.endpoints ep) q size.toNat [] hinv.holds hreadable
      size.toNat_lt (Nat.lt_succ_of_le hinv.holds.ring.length_le)
    dsimp only
    rw [hloop]
    refine ⟨_, _, rfl, ⟨_, rfl, ?_⟩, h.setEndpoint ⟨rfl, rfl, by rw [hq]; rfl⟩ fun q'' hq'' => ?_⟩
    · rw [hfrom]
      dsimp only
      rw [setEndpoint_self, hreceived, List.drop_left]
      exact ⟨rfl, rfl, rfl⟩
    · obtain rfl := Option.some.inj hq''
      refine ⟨ps', hinv.pos, hinv.le, hholds, fun htx => absurd (hrx.symm.trans htx) (by decide),
        fun _ => ⟨hreadable', ?_⟩⟩
      show (s.endpoints ep).received = ((s.endpoints ep).returned ++ ([] ++ _)) ++ _
      rw [hpending, List.nil_append, List.append_assoc, List.take_append_drop]
      exact hreceived

/-! ### Writes -/

theorem write_inv (h : Inv s) (streamIndex : Nat) (data : List UInt8) :
    (∀ totWrite queued, (s.write streamIndex data).2 = .written totWrite queued →
      data = [] ∧ queued = []) ∧ Inv (s.write streamIndex data).1 := by
  unfold State.write
  dsimp only
  split
  · exact ⟨fun _ _ hr => absurd hr (by simp), h⟩
  split
  · rename_i hempty
    exact ⟨fun _ _ hr => ⟨List.length_eq_zero_iff.mp hempty, (Reply.written.inj hr).2.symm⟩, h⟩
  split
  · exact ⟨fun _ _ hr => absurd hr (by simp), h⟩
  split
  · exact ⟨fun _ _ hr => absurd hr (by simp), h⟩
  · rename_i hopen
    rw [not_or] at hopen
    refine ⟨fun _ _ hr => absurd hr (by simp), h.endpoints, h.rx, h.tx, fun w hw => ?_⟩
    obtain rfl := Option.some.inj hw
    exact ⟨h.tx streamIndex hopen.1, by simpa [Option.isSome_iff_ne_none] using hopen.2, rfl,
      by simp, rfl⟩

def GivesUp (s : State) (w : Writing) (isr wasDisabled : Bool) : Prop :=
  w.waitLoopCnt ≥ 100 ∨ isr = true ∨ wasDisabled = true ∨ s.deviceState ≠ .configured

theorem Inv.finished (h : Inv s) : Inv { s with writing := none } :=
  ⟨h.endpoints, h.rx, h.tx, fun _ hw => absurd hw (by simp)⟩

theorem writeStep_inv (h : Inv s) {w : Writing} (hw : s.writing = some w) {isr wasDisabled : Bool}
    (hlast : w.rest = [] → GivesUp s w isr wasDisabled →
      ∀ q, (s.endpoints w.endpoint).queue = some q → q.full = false) :
    ∃ s' r, s.writeStep isr wasDisabled = some (s', r) ∧
      (∀ totWrite queued, r = .written totWrite queued → totWrite = w.data.length →
        Packetized (s.endpoints w.endpoint).maxPacketSize w.data queued) ∧ Inv s' := by
  have hwriting := h.writing w hw
  obtain ⟨q, hq⟩ := Option.isSome_iff_exists.mp hwriting.queue
  obtain ⟨ps, hinv⟩ := h.endpoints w.endpoint q hq
  unfold State.writeStep
  rw [hw]
  dsimp only
  rw [hq]
  dsimp only
  rcases hpush : q.push with _ | ⟨i, q'⟩
  · -- there is no room
    have hfull : q.full = true := hinv.holds.full.mpr (hinv.holds.push_none.mp hpush)
    have hreturns : GivesUp s w isr wasDisabled → ∀ totWrite queued,
        Reply.written w.totWrite w.queued = .written totWrite queued → totWrite = w.data.length →
        Packetized (s.endpoints w.endpoint).maxPacketSize w.data queued := by
      rintro hgives totWrite queued hr htotal
      obtain ⟨rfl, rfl⟩ := Reply.written.inj hr
      have hrest : w.rest = [] := by
        have hlength := congrArg List.length hwriting.data
        rw [List.length_append, ← hwriting.total, htotal] at hlength
        exact List.length_eq_zero_iff.mp (by omega)
      exact absurd (hlast hrest hgives q hq) (by rw [hfull]; decide)
    dsimp only
    split
    · refine ⟨_, _, rfl, hreturns (Or.inl (by omega)), ?_⟩
      split
      · refine (h.setEndpoint (sameKind_clear _) (clear_inv (h.endpoints _) fun hrx => ?_)).finished
        exact absurd (hwriting.sends.symm.trans hrx) (by decide)
      · exact h.finished
    split
    · rename_i hisr
      exact ⟨_, _, rfl, hreturns (Or.inr (Or.inl hisr)), h.finished⟩
    split
    · rename_i hdisabled
      exact ⟨_, _, rfl, hreturns (Or.inr (Or.inr (Or.inl hdisabled))), h.finished⟩
    split
    · rename_i hconfigured
      exact ⟨_, _, rfl, hreturns (Or.inr (Or.inr (Or.inr hconfigured))), h.finished⟩
    · refine ⟨_, _, rfl, fun _ _ hr => absurd hr (by simp), h.endpoints, h.rx, h.tx,
        fun w' hw' => ?_⟩
      obtain rfl := Option.some.inj hw'
      exact ⟨hwriting.sends, hwriting.queue, hwriting.data, hwriting.full, hwriting.total⟩
  · obtain ⟨-, -, hholds⟩ := hinv.holds.push_some hpush
    dsimp only
    generalize hmove : (if w.rest.length > (s.endpoints w.endpoint).maxPacketSize then
      (s.endpoints w.endpoint).maxPacketSize else w.rest.length) = max_move
    have hkept : Inv (s.setEndpoint w.endpoint { s.endpoints w.endpoint with
        queue := some (q'.fill i (w.rest.take max_move)) }) := by
      refine h.setEndpoint ⟨rfl, rfl, by rw [hq]; rfl⟩ fun q'' hq'' => ?_
      obtain rfl := Option.some.inj hq''
      exact ⟨_, hinv.pos, hinv.le, hholds _, hinv.sends,
        fun hrx => absurd (hwriting.sends.symm.trans hrx) (by decide)⟩
    split
    · rename_i hshort
      refine ⟨_, _, rfl, fun totWrite queued hr _ => ?_, hkept.finished⟩
      obtain ⟨-, rfl⟩ := Reply.written.inj hr
      have hall : w.rest.take max_move = w.rest := by
        rw [List.take_of_length_le]
        split at hmove <;> omega
      rw [hall, ← hwriting.data]
      refine packetized_concat hwriting.full ?_
      split at hmove <;> omega
    · rename_i hfull
      have hmax : max_move = (s.endpoints w.endpoint).maxPacketSize ∧ max_move ≤ w.rest.length := by
        split at hmove <;> omega
      refine ⟨_, _, rfl, fun _ _ hr => absurd hr (by simp), hkept.endpoints, hkept.rx, hkept.tx,
        fun w' hw' => ?_⟩
      obtain rfl := Option.some.inj hw'
      have hmoved : (w.rest.take max_move).length = max_move := by
        rw [List.length_take]
        omega
      have hself : (s.setEndpoint w.endpoint { s.endpoints w.endpoint with
          queue := some (q'.fill i (w.rest.take max_move)) }).endpoints w.endpoint =
          { s.endpoints w.endpoint with queue := some (q'.fill i (w.rest.take max_move)) } :=
        setEndpoint_self
      have hsame : SameKind (s.endpoints w.endpoint) { s.endpoints w.endpoint with
          queue := some (q'.fill i (w.rest.take max_move)) } := ⟨rfl, rfl, by rw [hq]; rfl⟩
      show WritingInv ((s.setEndpoint w.endpoint _).endpoints w.endpoint) _
      rw [hself]
      refine WritingInv.congr ⟨hwriting.sends, hwriting.queue, ?_, ?_, ?_⟩ hsame
      · show (w.queued ++ [w.rest.take max_move]).flatten ++ w.rest.drop max_move = w.data
        rw [List.flatten_append, List.flatten_singleton, List.append_assoc, List.take_append_drop]
        exact hwriting.data
      · intro p hp
        rcases List.mem_append.mp hp with hp | hp
        · exact hwriting.full p hp
        · rw [List.mem_singleton.mp hp, hmoved]
          exact hmax.1
      · show w.totWrite + max_move = (w.queued ++ [w.rest.take max_move]).flatten.length
        rw [List.flatten_append, List.flatten_singleton, List.length_append, hmoved, hwriting.total]

/-! ### Events -/

/-- No write is in progress, or it waits. -/
def Interruptible (s : State) : Prop := ∀ w, s.writing = some w → w.waiting = true

/-- The events that can come in a state: interrupts of the driver below for queues that it has, and
    calls one after the other. -/
def Enabled (s : State) : Event → Prop
  | .rxEnqueue ep bytes => Interruptible s ∧ (s.endpoints ep).queue.isSome = true ∧
      (s.endpoints ep).isTxQueue = false ∧ bytes.length ≤ (s.endpoints ep).maxPacketSize
  | .txDequeue ep _ => Interruptible s ∧ (s.endpoints ep).queue.isSome = true ∧
      (s.endpoints ep).isTxQueue = true
  | .deviceState _ => Interruptible s
  | .stateCallback => Interruptible s
  | .clearQueues _ _ => Interruptible s
  | .writeStep _ _ => s.writing.isSome = true
  | _ => s.writing = none

def NonePartlyRead (s : State) : Prop :=
  ∀ ep, (s.endpoints ep).isTxQueue = false → (s.endpoints ep).currentPacketOffset = 0

def NotPartlyRead (s : State) (streamIndex : Nat) : Prop :=
  (s.streams streamIndex).rxEP ≠ USB_NULL_ENDPOINT →
    (s.endpoints (s.streams streamIndex).rxEP).currentPacketOffset = 0

/-- The events that keep clear of the defects: no queue is cleared while its first packet is partly
    read, data is discarded of a stream that there is, and a write does not give up with only its
    empty last packet to go. -/
def Proper (s : State) : Event → Prop
  | .stateCallback => s.currentState ≠ s.deviceState →
      s.currentState = .configured ∨ s.deviceState = .configured → NonePartlyRead s
  | .clearQueues clrRxQueue _ => clrRxQueue = true → NonePartlyRead s
  | .closeStream streamIndex => s.initialized = true → streamIndex < USB_MAX_QUEUES →
      NotPartlyRead s streamIndex
  | .discardData streamIndex fTx => streamIndex < USB_MAX_QUEUES ∧ (s.initialized = true →
      s.configuration = true → fTx = false → NotPartlyRead s streamIndex)
  | .writeStep isr wasDisabled => ∀ w, s.writing = some w → w.rest = [] →
      GivesUp s w isr wasDisabled →
      ∀ q, (s.endpoints w.endpoint).queue = some q → q.full = false
  | _ => True

/-- A write that has returned its full size -/
def Wrote (max : Nat) (data : List UInt8) (r : Reply) : Prop :=
  ∀ totWrite queued, r = .written totWrite queued → totWrite = data.length →
    Packetized max data queued

/-- A read returns what comes next, and a write of the full size has packetized its data. -/
def Answered (s : State) (event : Event) (s' : State) (r : Reply) : Prop :=
  match event with
  | .read streamIndex size => ReadsNext s streamIndex size s' r
  | .write streamIndex data => Wrote (s.endpoints (s.streams streamIndex).txEP).maxPacketSize data r
  | .writeStep _ _ => ∀ w, s.writing = some w →
      Wrote (s.endpoints w.endpoint).maxPacketSize w.data r
  | _ => True

/-- An event with its answer, after which what each endpoint has received begins with what has been
    returned of it -/
def Honoured (s : State) (event : Event) (s' : State) (r : Reply) : Prop :=
  Answered s event s' r ∧
  ∀ ep, (s'.endpoints ep).queue.isSome = true → (s'.endpoints ep).isTxQueue = false →
    (s'.endpoints ep).returned <+: (s'.endpoints ep).received

theorem Inv.returned (h : Inv s) : ∀ ep, (s.endpoints ep).queue.isSome = true →
    (s.endpoints ep).isTxQueue = false → (s.endpoints ep).returned <+: (s.endpoints ep).received := by
  intro ep hqueue hrx
  obtain ⟨q, hq⟩ := Option.isSome_iff_exists.mp hqueue
  obtain ⟨ps, hinv⟩ := h.endpoints ep q hq
  rw [(hinv.receives hrx).2]
  exact List.prefix_append _ _

/-- **One event** -/
theorem Inv.step_spec (h : Inv s) {event : Event} (henabled : Enabled s event)
    (hproper : Proper s event) :
    ∃ s' r, step s event = some (s', r) ∧ Honoured s event s' r ∧ Inv s' := by
  have hkept : ∀ {s' : State} {r : Reply}, step s event = some (s', r) → Answered s event s' r →
      Inv s' → ∃ s' r, step s event = some (s', r) ∧ Honoured s event s' r ∧ Inv s' :=
    fun heq hanswered hs' => ⟨_, _, heq, ⟨hanswered, hs'.returned⟩, hs'⟩
  cases event with
  | rxEnqueue ep bytes =>
    obtain ⟨-, hqueue, hrx, hsize⟩ := henabled
    obtain ⟨s', r, heq, hs'⟩ := rxEnqueue_inv h hqueue hrx hsize
    exact hkept heq trivial hs'
  | txDequeue ep done =>
    obtain ⟨s', r, heq, hs'⟩ := txDequeue_inv h done henabled.2.1 henabled.2.2
    exact hkept heq trivial hs'
  | deviceState state =>
    exact hkept rfl trivial (h.congr (fun _ => .refl _) h.endpoints rfl rfl)
  | stateCallback => exact hkept rfl trivial (stateCallback_inv h hproper)
  | clearQueues clrRxQueue clrTxQueue => exact hkept rfl trivial (h.clearQueues hproper)
  | openStream streamIndex writeEP readEP =>
    exact hkept rfl trivial (openStream_inv h streamIndex writeEP readEP)
  | closeStream streamIndex => exact hkept rfl trivial (closeStream_inv h hproper)
  | discardData streamIndex fTx => exact hkept rfl trivial (discardData_inv h hproper.2)
  | read streamIndex size =>
    obtain ⟨s', r, heq, hreads, hs'⟩ := read_inv h streamIndex size
    exact hkept heq hreads hs'
  | write streamIndex data =>
    obtain ⟨hwritten, hs'⟩ := write_inv h streamIndex data
    refine hkept rfl (fun totWrite queued hr _ => ?_) hs'
    obtain ⟨rfl, rfl⟩ := hwritten totWrite queued hr
    exact packetized_nil _
  | writeStep isr wasDisabled =>
    obtain ⟨w, hw⟩ := Option.isSome_iff_exists.mp henabled
    obtain ⟨s', r, heq, hwritten, hs'⟩ := writeStep_inv h hw (hproper w hw)
    refine hkept heq (fun w' hw' => ?_) hs'
    obtain rfl := Option.some.inj (hw.symm.trans hw')
    exact hwritten

end Step

/-! ### Runs -/

theorem initial_inv (setup : Setup) : Inv (initial setup) := by
  refine ⟨fun ep q hq => ?_, fun i hi => absurd rfl hi, fun i hi => absurd rfl hi,
    fun w hw => absurd hw (by simp [initial])⟩
  rcases hsetup : setup.endpoints ep with _ | e
  · simp [initial, hsetup] at hq
  · have hendpoint : (initial setup).endpoints ep =
        ⟨some (emptyQueue setup.packetCount), 0, e.maxPacketSize, e.isTxQueue, [], []⟩ := by
      simp only [initial, hsetup]
    rw [hendpoint] at hq ⊢
    obtain rfl := Option.some.inj hq
    refine ⟨[], e.pos, e.le, ?_, fun _ => rfl, fun _ => ⟨⟨by simp, Or.inl rfl⟩, rfl⟩⟩
    have hclear : emptyQueue setup.packetCount = (emptyQueue setup.packetCount).clear := rfl
    rw [hclear]
    refine Queue.clear_holds ?_
    simpa [emptyQueue] using setup.pos

end TinyClr.UsbStreams
