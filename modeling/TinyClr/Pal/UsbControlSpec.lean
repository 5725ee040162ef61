import TinyClr.Pal.UsbControlHandlers

/-!
# Control replies are complete and well delimited

Whatever the host has sent before, a request that looks like one with an answer of its own only if it
is one, that does not ask for the status of an interface, whose record is found, and that is limited
to one packet only if it is the first descriptor request after a reset, is answered by what it asks
for.
-/

namespace TinyClr.UsbControl

open TinyClr.Library
open TinyClr.UsbConfiguration

variable {t : Tables} {s s' : Controller} {setup : ControlRequest} {reply : Reply}

/-! ### Any request -/

def ControlRequest.FromConfiguration (setup : ControlRequest) : Prop :=
  setup.bRequest ∉ [USB_GET_STATUS, USB_CLEAR_FEATURE, USB_SET_FEATURE, USB_SET_ADDRESS,
    USB_GET_CONFIGURATION, USB_SET_CONFIGURATION]

instance (setup : ControlRequest) : Decidable setup.FromConfiguration :=
  inferInstanceAs (Decidable (_ ∉ _))

/-- What a request needs to be answered by what it asks for, apart from the limit -/
structure Answerable (t : Tables) (s : Controller) (setup : ControlRequest) : Prop where
  standard : setup.LooksStandard → setup.IsStandard
  interface : ¬ AsksInterfaceStatus s setup
  searchable : setup.FromConfiguration → Searchable t setup

def expectedCount (s : Controller) (setup : ControlRequest) : Nat :=
  if setup.FromConfiguration then tableLimit s setup else setup.wLength.toNat

theorem Handled.imp {careful careful' : Prop} {n : Nat} (h : Handled t s s' setup reply careful n)
    (himp : careful' → careful) : Handled t s s' setup reply careful' n :=
  ⟨h.same, h.stall, h.ready, fun hreply hcareful => h.offers hreply (himp hcareful)⟩

theorem Settled.handled (h : Settled s s' reply) (careful : Prop) (n : Nat) :
    Handled t s s' setup reply careful n := by
  rcases h with ⟨rfl, rfl⟩ | ⟨hsame, hcount, hstall, hdata, -⟩
  · exact ⟨.refl _, fun _ => ⟨rfl, rfl, rfl, rfl⟩, fun h _ => h, fun h => absurd h (by simp)⟩
  · refine ⟨hsame, fun h => absurd h hstall, fun _ _ _ => Or.inl ?_, fun h => absurd h hdata⟩
    rw [hcount]
    exact Nat.zero_le _

theorem usbControlCallback_handled (h : Accepted t.configuration) (hsize : 8 ≤ s.packetSize.toNat)
    (hendpoints : s.endpointStatus.length = s.endpointCount.toNat) :
    ∃ s' reply, usbControlCallback t s setup = some (s', reply) ∧
      Handled t s s' setup reply (Answerable t s setup) (expectedCount s setup) := by
  have hlength : ∀ {number}, number ∈ [USB_GET_STATUS, USB_CLEAR_FEATURE, USB_SET_FEATURE,
      USB_SET_ADDRESS, USB_GET_CONFIGURATION, USB_SET_CONFIGURATION] → setup.bRequest = number →
      expectedCount s setup = setup.wLength.toNat :=
    fun hmem hnumber => if_neg fun hother => hother (hnumber ▸ hmem)
  unfold usbControlCallback
  split_ifs with hnone hstatus hclear hset haddress hconfiguration hsetConfiguration
  · exact ⟨_, _, rfl, .refl s, fun h => absurd h (by simp), fun _ h => absurd rfl h,
      fun h => absurd h (by simp)⟩
  · refine ⟨_, _, rfl, hlength (by decide) hstatus ▸
      (usbHandleGetStatus_handled hstatus hsize hendpoints).imp fun hcareful => ?_⟩
    exact ⟨hcareful.standard (Or.inl hstatus), hcareful.interface⟩
  · obtain ⟨s', reply, heq, hsettled⟩ := @usbHandleClearFeature_settled t s setup h
    exact ⟨s', reply, heq, hsettled.handled _ _⟩
  · obtain ⟨s', reply, heq, hsettled⟩ := @usbHandleSetFeature_settled t s setup h
    exact ⟨s', reply, heq, hsettled.handled _ _⟩
  · exact ⟨_, _, rfl, usbHandleSetAddress_settled.handled _ _⟩
  · refine ⟨_, _, rfl, hlength (by decide) hconfiguration ▸
      (usbHandleGetConfiguration_handled hconfiguration).imp fun hcareful => ?_⟩
    exact hcareful.standard (Or.inr (Or.inl hconfiguration))
  · exact ⟨_, _, rfl, usbHandleSetConfiguration_settled.handled _ _⟩
  · obtain ⟨s', reply, heq, hhandled⟩ :=
      usbHandleConfigurationRequests_handled h s hstatus hconfiguration
    have hother : setup.FromConfiguration := by
      intro hmem
      simp only [List.mem_cons, List.not_mem_nil, or_false] at hmem
      tauto
    have hcount : expectedCount s setup = tableLimit s setup := if_pos hother
    refine ⟨s', reply, heq, hcount ▸ hhandled.imp fun hcareful => ?_⟩
    exact ⟨hcareful.standard, hcareful.searchable hother⟩

/-! ### The controller while it runs -/

structure Inv (s : Controller) : Prop where
  ready : Ready s
  size : 8 ≤ s.packetSize.toNat
  endpoints : s.endpointStatus.length = s.endpointCount.toNat

theorem Inv.same (h : Inv s) (hsame : Same s s') (hready : Ready s') : Inv s' where
  ready := hready
  size := hsame.packetSize.symm ▸ h.size
  endpoints := by rw [hsame.endpoints, hsame.endpointCount, h.endpoints]

theorem Ready.usbStateCallback (h : Ready s) : Ready (usbStateCallback s) := by
  unfold UsbControl.usbStateCallback
  dsimp only
  split_ifs
  · exact fun hcallback => absurd hcallback (by simp)
  · exact h
  · exact h

theorem Inv.next (h : Inv s) (hcallback : s.dataCallback = true) : Inv (usbDataCallback t s) :=
  h.same ⟨rfl, rfl, rfl⟩ (h.ready.usbDataCallback hcallback)

theorem Inv.stateCallback (h : Inv s) : Inv (usbStateCallback s) :=
  h.same (same_usbStateCallback s) h.ready.usbStateCallback

/-- **A received packet** is handled, and keeps the invariant. -/
theorem Inv.receive (h : Inv s) (haccepted : Accepted t.configuration) (dataSize : UInt8)
    (setup : ControlRequest) :
    ∃ s' reply, receive t s dataSize setup = some (s', reply) ∧ Inv s' ∧
      (reply ≠ .done → Handled t { s with dataSize := dataSize } s' setup reply
        (Answerable t { s with dataSize := dataSize } setup)
        (expectedCount { s with dataSize := dataSize } setup)) := by
  have hs : Inv { s with dataSize := dataSize } := ⟨h.ready, h.size, h.endpoints⟩
  obtain ⟨s', reply, heq, hhandled⟩ :=
    @usbControlCallback_handled t _ setup haccepted hs.size hs.endpoints
  rw [UsbControl.receive, heq, Option.map_some]
  refine ⟨_, _, rfl, ?_, fun hreply => ?_⟩
  · split_ifs with hdone
    · refine hs.same ⟨hhandled.same.1, hhandled.same.2, hhandled.same.3⟩ fun hcallback => ?_
      exact absurd hcallback (by simp)
    · exact hs.same hhandled.same (hhandled.ready hs.ready hdone)
  · rw [if_neg hreply]
    exact hhandled

/-! ### The first descriptor request -/

def ControlRequest.IsDescriptorRequest (setup : ControlRequest) : Prop :=
  setup.IsStandard ∧ setup.bRequest = USB_GET_DESCRIPTOR ∧ setup.wLength ≠ 0

instance (setup : ControlRequest) : Decidable setup.IsDescriptorRequest :=
  inferInstanceAs (Decidable (_ = _ ∧ _ ∧ _))

/-- Whether there has been no descriptor request since the last reset -/
def firstAfter (first : Bool) : Event → Bool
  | .setup dataSize packet =>
      if dataSize ≠ 0 ∧ packet.IsDescriptorRequest then false else first
  | .reset _ => true
  | _ => first

def stepFirst (t : Tables) (s : Controller × Bool) (event : Event) :
    Option ((Controller × Bool) × Option Reply) :=
  (step t s.1 event).map fun (s', reply) => ((s', firstAfter s.2 event), reply)

def asked (s : Controller) (first : Bool) (setup : ControlRequest) : Nat :=
  if first = true ∧ setup.IsDescriptorRequest then min setup.wLength.toNat s.packetSize.toNat
  else setup.wLength.toNat

/-! ### Runs -/

/-- The packets that go out are the first bytes of what is requested, each read from an object, and
    their end is seen. -/
def Delivered (t : Tables) (s s' : Controller) (first : Bool) (setup : ControlRequest) : Prop :=
  ∃ data, Requested t s setup data ∧
    ∃ s'' packets, Ends (sendStep t) (s', []) (s'', packets) ∧
      Delimited s.packetSize.toNat (asked s first setup)
        ((data.take (asked s first setup)).map some) packets

def Right (t : Tables) (s : Controller) (first : Bool) : Event → Prop
  | .setup dataSize packet => ∃ s' reply, receive t s dataSize packet = some (s', reply) ∧
      (reply = .stall → Unchanged s s') ∧
      (reply = .data → Delivered t { s with dataSize := dataSize } s' first packet ∧
        ∀ u, Reaches (sendStep t) (s', []) u → u.1.dataCallback = true → ¬ Wraps u.1)
  | .next => s.dataCallback = true → ¬ Wraps s
  | _ => True

def Careful (t : Tables) (s : Controller) (first : Bool) : Event → Prop
  | .setup _ packet => Answerable t s packet ∧
      (packet.FromConfiguration → packet.wLength.toNat ≤ s.packetSize.toNat ∨
        (Limited s ↔ first = true ∧ packet.IsDescriptorRequest))
  | _ => True

/-- The controller after `USB_Initialize` -/
def initial (packetSize endpointCount : UInt8) (deviceStatus : UInt16) : Controller where
  deviceState := USB_DEVICE_STATE_DETACHED
  currentState := 0xFF
  address := 0
  packetSize := packetSize
  configurationNum := 0
  firstGetDescriptor := true
  deviceStatus := deviceStatus
  endpointStatus := List.replicate endpointCount.toNat 0
  endpointCount := endpointCount
  endpointStatusChange := 0
  dataCallback := false
  residualData := none
  residualCount := 0
  expected := 0
  dataSize := 0
  data := []

theorem inv_initial {packetSize : UInt8} (hsize : 8 ≤ packetSize.toNat) (endpointCount : UInt8)
    (deviceStatus : UInt16) : Inv (initial packetSize endpointCount deviceStatus) where
  ready := fun hcallback => absurd hcallback (by simp [initial])
  size := hsize
  endpoints := List.length_replicate

theorem Inv.step (h : Inv s) (haccepted : Accepted t.configuration) (event : Event) :
    ∃ s' reply, step t s event = some (s', reply) ∧ Inv s' := by
  cases event with
  | setup dataSize packet =>
    obtain ⟨s', reply, heq, hinv, -⟩ := h.receive haccepted dataSize packet
    exact ⟨s', some reply, by rw [UsbControl.step, heq]; rfl, hinv⟩
  | next =>
    refine ⟨_, _, rfl, ?_⟩
    split_ifs with hcallback
    · exact h.next hcallback
    · exact h
  | reset restart =>
    refine ⟨_, _, rfl, Inv.stateCallback ?_⟩
    exact ⟨h.ready, h.size, h.endpoints⟩
  | deviceState state =>
    refine ⟨_, _, rfl, Inv.stateCallback ?_⟩
    exact ⟨h.ready, h.size, h.endpoints⟩

theorem expectedCount_eq {first : Bool} (hcareful : setup.FromConfiguration →
    setup.wLength.toNat ≤ s.packetSize.toNat ∨
      (Limited s ↔ first = true ∧ setup.IsDescriptorRequest)) :
    expectedCount s setup = asked s first setup := by
  unfold expectedCount asked
  by_cases hother : setup.FromConfiguration
  · rw [if_pos hother, tableLimit]
    rcases hcareful hother with hshort | hlimited
    · rw [Nat.min_eq_left hshort, ite_self, ite_self]
    · by_cases hlimit : Limited s
      · rw [if_pos hlimit, if_pos (hlimited.mp hlimit)]
      · rw [if_neg hlimit, if_neg fun h => hlimit (hlimited.mpr h)]
  · rw [if_neg hother, if_neg]
    rintro ⟨-, -, hbRequest, -⟩
    exact hother (by rw [ControlRequest.FromConfiguration, hbRequest]; decide)

theorem Offers.delimited {n : Nat} {data : List UInt8} (h : Offers t s' n data) (hinv : Inv s') :
    ∃ s'' packets, Ends (sendStep t) (s', []) (s'', packets) ∧
      Delimited s'.packetSize.toNat n ((data.take n).map some) packets := by
  obtain ⟨hcallback, hcount, hexpected, p, hpointer, hholds⟩ := h
  have hpos : 0 < s'.packetSize.toNat := Nat.lt_of_lt_of_le (by decide) hinv.size
  obtain ⟨s'', packets, hends, hpackets⟩ := sends hpos hinv.ready hcallback (t := t) []
  have hcopy : copyFrom t s' s'.residualData s'.residualCount.toNat = (data.take n).map some := by
    rw [hpointer, hcount, copyFrom_holds hholds (Nat.min_le_right _ _), ← List.take_eq_take_min]
  have hlength : ((data.take n).map some).length = s'.residualCount.toNat := by
    rw [List.length_map, List.length_take, hcount]
  rw [hcopy] at hpackets
  refine ⟨s'', packets, hends, ?_⟩
  rcases hexpected with hexpected | hshort
  · exact hexpected ▸ hpackets.delimited
  · exact (hpackets.of_short (hlength ▸ hshort) n).delimited

theorem Inv.right (h : Inv s) (haccepted : Accepted t.configuration) {first : Bool} {event : Event}
    (hcareful : Careful t s first event) : Right t s first event := by
  cases event with
  | setup dataSize packet =>
    obtain ⟨hanswerable, hlimit⟩ := hcareful
    obtain ⟨s', reply, heq, hinv, hhandled⟩ := h.receive haccepted dataSize packet
    refine ⟨s', reply, heq, fun hstall => ?_, fun hdata => ⟨?_, fun u hu hcallback => ?_⟩⟩
    · obtain ⟨hstate, haddress, hnum, hendpoint⟩ := (hhandled (by rw [hstall]; simp)).stall hstall
      exact ⟨hstate, haddress, hnum, hendpoint⟩
    · have hhandled := hhandled (by rw [hdata]; simp)
      obtain ⟨data, hrequested, hoffers⟩ := hhandled.offers hdata
        ⟨hanswerable.standard, hanswerable.interface, hanswerable.searchable⟩
      have hcount := expectedCount_eq (s := { s with dataSize := dataSize }) hlimit
      rw [hcount] at hoffers
      obtain ⟨s'', packets, hends, hdelimited⟩ := hoffers.delimited hinv
      rw [hhandled.same.packetSize] at hdelimited
      exact ⟨data, hrequested, s'', packets, hends, hdelimited⟩
    · exact (ready_of_reaches hinv.ready hu).not_wraps hcallback
  | next => exact h.ready.not_wraps
  | reset restart => trivial
  | deviceState state => trivial

/-- **Control replies.**  On a device with an accepted configuration, after any run of the
    controller, every step that meets the condition goes right. -/
theorem replies_delivered (t : Tables) (haccepted : Accepted t.configuration)
    (packetSize endpointCount : UInt8) (deviceStatus : UInt16) (hsize : 8 ≤ packetSize.toNat)
    (events : List Event) :
    ∃ s first replies,
      run (stepFirst t) (initial packetSize endpointCount deviceStatus, true) events =
        some ((s, first), replies) ∧
      ∀ event, Careful t s first event → Right t s first event := by
  have hstep : ∀ (s : Controller × Bool) event, Inv s.1 → True →
      ∃ s' reply, stepFirst t s event = some (s', reply) ∧ Inv s'.1 := by
    intro s event hs _
    obtain ⟨s', reply, heq, hinv⟩ := hs.step haccepted event
    exact ⟨_, _, by rw [stepFirst, heq]; rfl, hinv⟩
  obtain ⟨⟨s, first⟩, replies, hrun, hinv⟩ :=
    run_invariant (stepFirst t) hstep events (initial packetSize endpointCount deviceStatus, true)
      (inv_initial hsize endpointCount deviceStatus) (meets_of_forall _ (fun _ _ => trivial) _ _)
  exact ⟨s, first, replies, hrun, fun event hcareful => hinv.right haccepted hcareful⟩

/-- The small configuration, without a friendly name -/
def small : Tables := ⟨.ofBytes smallBytes, ⟨[0], by decide⟩⟩

theorem accepted_small : Accepted small.configuration := ends_iff_loop.mpr ⟨8, rfl⟩

theorem searchable_small (setup : ControlRequest) : Searchable small setup := by
  have hall : smallBytes.all (fun value => value != USB_GENERIC_DESCRIPTOR_MARKER) = true := rfl
  have hnone : ∀ r, small.configuration.byte r ≠ USB_GENERIC_DESCRIPTOR_MARKER := by
    intro r
    have hbyte : small.configuration.byte r = smallBytes.getD r 0 := rfl
    rw [hbyte, List.getD_eq_getElem?_getD]
    rcases Nat.lt_or_ge r smallBytes.length with hlt | hge
    · rw [List.getElem?_eq_getElem hlt, Option.getD_some]
      simpa using List.all_eq_true.mp hall _ (List.getElem_mem hlt)
    · rw [List.getElem?_eq_none hge]
      decide
  refine ⟨fun _ marker _ g _ hway => ?_, fun header hfirst => absurd hfirst.2.1.1 (hnone header)⟩
  rcases hway with ⟨hgeneric, -⟩ | ⟨-, -, hsetup⟩
  · exact absurd hgeneric (hnone g)
  · exact absurd hsetup (by simp)

/-- After a reset the first eight bytes of the device descriptor are sent. -/
theorem replies_delivered_device :
    ∃ s first replies, run (stepFirst small) (initial 8 4 0, true) [.reset true] =
      some ((s, first), replies) ∧ Right small s first (.setup 8 ⟨⟨0x80, 6, 0x0100, 0⟩, 64⟩) := by
  obtain ⟨s, first, replies, hrun, hright⟩ :=
    replies_delivered small accepted_small 8 4 0 (by decide) [.reset true]
  refine ⟨s, first, replies, hrun, hright _ ⟨⟨fun _ => ?_, ?_, fun _ => searchable_small _⟩, fun _ => ?_⟩⟩
  · exact (by decide : (0x80 : UInt8) &&& 0x60 = 0)
  · exact fun h => absurd h.1 (by decide)
  · have heq : ((s, first), replies) = ((resetEvent (initial 8 4 0) true, true), [none]) :=
      Option.some.inj (hrun.symm.trans rfl)
    obtain ⟨⟨rfl, rfl⟩, rfl⟩ : (s = resetEvent (initial 8 4 0) true ∧ first = true) ∧
        replies = [none] := by simpa using heq
    exact Or.inr (by decide)

def configured : Controller :=
  { initial 8 4 0 with
    deviceState := USB_DEVICE_STATE_CONFIGURED
    currentState := USB_DEVICE_STATE_CONFIGURED
    address := 1
    configurationNum := 1
    dataCallback := true
    dataSize := 8 }

/-- The status of an interface is read from a variable that is gone. -/
theorem not_right_interfaceStatus : Accepted small.configuration ∧ ∃ s first replies,
    run (stepFirst small) (initial 8 4 0, true)
      [.setup 8 ⟨⟨0, 5, 1, 0⟩, 0⟩, .setup 8 ⟨⟨0, 9, 1, 0⟩, 0⟩] = some ((s, first), replies) ∧
    ¬ Right small s first (.setup 8 ⟨⟨0x81, 0, 0, 0⟩, 2⟩) := by
  refine ⟨accepted_small, configured, true, [some .address, some .configuration], rfl, ?_⟩
  rintro ⟨s', reply, heq, -, hdata⟩
  have hreply : receive small configured 8 ⟨⟨0x81, 0, 0, 0⟩, 2⟩ =
      some ({ configured with residualData := some ⟨.zero, 0⟩, residualCount := 2 }, .data) := rfl
  obtain ⟨rfl, rfl⟩ := Prod.mk.inj (Option.some.inj (hreply.symm.trans heq))
  obtain ⟨⟨data, -, s'', packets, hends, hdelimited⟩, -⟩ := hdata rfl
  have hsent := hends.unique (ends_iff_loop.mpr ⟨2, rfl⟩)
  obtain rfl : packets = [[none, none]] := congrArg Prod.snd hsent
  have hnone : (none : Option UInt8) ∈ [[none, none]].flatten := by simp
  rw [hdelimited.flatten] at hnone
  obtain ⟨byte, -, hbyte⟩ := List.mem_map.mp hnone
  exact absurd hbyte (by simp)

end TinyClr.UsbControl
