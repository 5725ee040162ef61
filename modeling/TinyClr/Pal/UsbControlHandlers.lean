import TinyClr.Pal.UsbControlReplies

/-!
# What the handlers do

A handler stalls and leaves the state of the device alone, has nothing to send, or leaves a pointer
and a count behind.  `Requested` says what a setup packet asks for: standard requests have an answer
of their own, and every other request is answered by the generic record for it.
-/

namespace TinyClr.UsbControl

open TinyClr.Library
open TinyClr.UsbConfiguration

/-! ### What is requested -/

def ControlRequest.IsStandard (setup : ControlRequest) : Prop := setup.bmRequestType &&& 0x60 = 0

def First (t : Tables) (setup : ControlRequest) (marker : UInt8) (header : Nat) : Prop :=
  (Found.header (some header)).Right t.configuration marker (some setup.toSetupPacket)

inductive Answer (t : Tables) (s : Controller) (setup : ControlRequest) : List UInt8 → Prop
  | deviceStatus : setup.bRequest = USB_GET_STATUS → setup.recipient = USB_SETUP_RECIPIENT_DEVICE →
      Answer t s setup (bytes16 s.deviceStatus.toNat)
  | interfaceStatus : setup.bRequest = USB_GET_STATUS →
      setup.recipient = USB_SETUP_RECIPIENT_INTERFACE → Answer t s setup (bytes16 0)
  | endpointStatus {status : UInt16} : setup.bRequest = USB_GET_STATUS →
      setup.recipient = USB_SETUP_RECIPIENT_ENDPOINT →
      s.endpointStatus[(setup.wIndex &&& 0x7F).toNat]? = some status →
      Answer t s setup (bytes16 status.toNat)
  | configurationNum : setup.bRequest = USB_GET_CONFIGURATION →
      Answer t s setup [s.configurationNum]
  | device {header : Nat} : setup.bRequest = USB_GET_DESCRIPTOR →
      setup.type = USB_DEVICE_DESCRIPTOR_TYPE → First t setup USB_DEVICE_DESCRIPTOR_MARKER header →
      Answer t s setup (contents t.configuration (header + sizeofHeader) (bLength t header))
  | configuration {header : Nat} : setup.bRequest = USB_GET_DESCRIPTOR →
      setup.type = USB_CONFIGURATION_DESCRIPTOR_TYPE →
      First t setup USB_CONFIGURATION_DESCRIPTOR_MARKER header →
      Answer t s setup (contents t.configuration (header + sizeofHeader) (wTotalLength t header))
  | language : setup.bRequest = USB_GET_DESCRIPTOR → setup.type = USB_STRING_DESCRIPTOR_TYPE →
      setup.descriptorIndex = 0 → Answer t s setup USB_LanguageDescriptor
  | friendlyName : setup.bRequest = USB_GET_DESCRIPTOR → setup.type = USB_STRING_DESCRIPTOR_TYPE →
      setup.descriptorIndex = USB_FRIENDLY_STRING_NUM → t.friendlyNameString.bLength ≠ 0 →
      Answer t s setup (t.friendlyNameString.bytes.take t.friendlyNameString.bLength.toNat)
  | string {header : Nat} : setup.bRequest = USB_GET_DESCRIPTOR →
      setup.type = USB_STRING_DESCRIPTOR_TYPE → setup.descriptorIndex ≠ 0 →
      ¬ (setup.descriptorIndex = USB_FRIENDLY_STRING_NUM ∧ t.friendlyNameString.bLength ≠ 0) →
      First t setup USB_STRING_DESCRIPTOR_MARKER header →
      Answer t s setup (contents t.configuration (header + sizeofHeader) (bLength t header))

/-- What a setup packet asks for -/
def Requested (t : Tables) (s : Controller) (setup : ControlRequest) (data : List UInt8) : Prop :=
  (setup.IsStandard ∧ Answer t s setup data) ∨
  ((∀ data', setup.IsStandard → ¬ Answer t s setup data') ∧
    ∃ header, First t setup USB_GENERIC_DESCRIPTOR_MARKER header ∧
      data = contents t.configuration (header + sizeofGeneric)
        (sizeOf t.configuration header - sizeofGeneric))

/-! ### When the answer is the right one -/

def markerOf (type : UInt8) : Option UInt8 :=
  if type = USB_DEVICE_DESCRIPTOR_TYPE then some USB_DEVICE_DESCRIPTOR_MARKER
  else if type = USB_CONFIGURATION_DESCRIPTOR_TYPE then some USB_CONFIGURATION_DESCRIPTOR_MARKER
  else if type = USB_STRING_DESCRIPTOR_TYPE then some USB_STRING_DESCRIPTOR_MARKER
  else none

/-- The request is taken for one with an answer of its own. -/
def ControlRequest.LooksStandard (setup : ControlRequest) : Prop :=
  setup.bRequest = USB_GET_STATUS ∨ setup.bRequest = USB_GET_CONFIGURATION ∨
    (setup.bRequest = USB_GET_DESCRIPTOR ∧ (markerOf setup.type).isSome)

def AsksInterfaceStatus (s : Controller) (setup : ControlRequest) : Prop :=
  setup.bRequest = USB_GET_STATUS ∧ setup.wValue = 0 ∧ setup.wLength = 2 ∧
    s.deviceState = USB_DEVICE_STATE_CONFIGURED ∧ setup.recipient = USB_SETUP_RECIPIENT_INTERFACE

/-- The records that a setup packet asks for are where the search looks for them: no generic record
    is taken for a descriptor, and the generic record for it is longer than its header. -/
structure Searchable (t : Tables) (setup : ControlRequest) : Prop where
  clear : setup.bRequest = USB_GET_DESCRIPTOR → ∀ marker, markerOf setup.type = some marker →
    ∀ g, IsRecord t.configuration g →
      InTheWay t.configuration marker (some setup.toSetupPacket) g →
      ∃ p, IsRecord t.configuration p ∧ p < g ∧
        Wanted t.configuration marker (some setup.toSetupPacket) p
  generic : ∀ header, First t setup USB_GENERIC_DESCRIPTOR_MARKER header →
    sizeofGeneric ≤ sizeOf t.configuration header

variable {t : Tables} {s s' : Controller} {setup : ControlRequest} {reply : Reply}

/-! ### Searches -/

theorem findRecord_spec (h : Accepted t.configuration) (setup : ControlRequest) (marker : UInt8) :
    ∃ header, findRecord t setup marker = some header ∧
      ((∀ g, IsRecord t.configuration g →
          InTheWay t.configuration marker (some setup.toSetupPacket) g →
          ∃ p, IsRecord t.configuration p ∧ p < g ∧
            Wanted t.configuration marker (some setup.toSetupPacket) p) →
        (Found.header header).Right t.configuration marker (some setup.toSetupPacket)) := by
  obtain ⟨header, hfind, hright⟩ := h.find marker setup.toSetupPacket
  refine ⟨header, ?_, hright⟩
  rw [findRecord, hfind]

theorem clear_generic (c : Configuration) (packet : SetupPacket) {g : Nat} :
    ¬ InTheWay c USB_GENERIC_DESCRIPTOR_MARKER (some packet) g := by
  rintro (⟨-, h | ⟨h, -⟩⟩ | ⟨-, h, -⟩)
  · exact absurd h (by simp)
  · exact h rfl
  · exact absurd h (by decide)

/-! ### Requests that send nothing -/

/-- What every request leaves as it is -/
structure Same (s s' : Controller) : Prop where
  packetSize : s'.packetSize = s.packetSize
  endpointCount : s'.endpointCount = s.endpointCount
  endpoints : s'.endpointStatus.length = s.endpointStatus.length

/-- What a request that stalls leaves as it is -/
structure Unchanged (s s' : Controller) : Prop where
  deviceState : s'.deviceState = s.deviceState
  address : s'.address = s.address
  configurationNum : s'.configurationNum = s.configurationNum
  endpointStatus : s'.endpointStatus = s.endpointStatus

/-- The ways a request ends without data: it stalls before it has changed anything, or there is
    nothing to send. -/
def Settled (s s' : Controller) (reply : Reply) : Prop :=
  (s' = s ∧ reply = .stall) ∨
    (Same s s' ∧ s'.residualCount = 0 ∧ reply ≠ .stall ∧ reply ≠ .data ∧ reply ≠ .done)

theorem Same.refl (s : Controller) : Same s s := ⟨rfl, rfl, rfl⟩

theorem same_usbStateCallback (s : Controller) : Same s (usbStateCallback s) := by
  unfold usbStateCallback
  dsimp only
  split_ifs <;> exact ⟨rfl, rfl, rfl⟩

theorem changeEndpoint_settled (change : UInt16 → UInt16) :
    Settled s (changeEndpoint s setup change).1 (changeEndpoint s setup change).2 := by
  unfold changeEndpoint
  dsimp only
  split_ifs
  · exact Or.inl ⟨rfl, rfl⟩
  · exact Or.inl ⟨rfl, rfl⟩
  · exact Or.inl ⟨rfl, rfl⟩
  · exact Or.inr ⟨⟨rfl, rfl, List.length_modify ..⟩, rfl, by simp, by simp, by simp⟩

theorem usbHandleClearFeature_settled (h : Accepted t.configuration) :
    ∃ s' reply, usbHandleClearFeature t s setup = some (s', reply) ∧ Settled s s' reply := by
  obtain ⟨header, hfind, -⟩ := findRecord_spec h setup USB_CONFIGURATION_DESCRIPTOR_MARKER
  have hstall : ∃ s' reply, some (s, Reply.stall) = some (s', reply) ∧ Settled s s' reply :=
    ⟨_, _, rfl, Or.inl ⟨rfl, rfl⟩⟩
  unfold usbHandleClearFeature
  rw [hfind, Option.bind_eq_bind, Option.bind_some]
  split_ifs
  · exact hstall
  · exact hstall
  · exact hstall
  · cases header with
    | none => exact hstall
    | some header =>
      dsimp only
      split_ifs
      · exact ⟨_, _, rfl, Or.inr ⟨⟨rfl, rfl, rfl⟩, rfl, by simp, by simp, by simp⟩⟩
      · exact hstall
  · exact hstall
  · exact ⟨_, _, rfl, changeEndpoint_settled _⟩
  · exact hstall

theorem usbHandleSetFeature_settled (h : Accepted t.configuration) :
    ∃ s' reply, usbHandleSetFeature t s setup = some (s', reply) ∧ Settled s s' reply := by
  obtain ⟨header, hfind, -⟩ := findRecord_spec h setup USB_CONFIGURATION_DESCRIPTOR_MARKER
  have hstall : ∃ s' reply, some (s, Reply.stall) = some (s', reply) ∧ Settled s s' reply :=
    ⟨_, _, rfl, Or.inl ⟨rfl, rfl⟩⟩
  unfold usbHandleSetFeature
  rw [hfind, Option.bind_eq_bind, Option.bind_some]
  split_ifs
  · exact hstall
  · exact hstall
  · exact hstall
  · cases header with
    | none => exact hstall
    | some header =>
      exact ⟨_, _, rfl, Or.inr ⟨⟨rfl, rfl, rfl⟩, rfl, by simp, by simp, by simp⟩⟩
  · exact hstall
  · exact ⟨_, _, rfl, changeEndpoint_settled _⟩
  · exact hstall

theorem usbHandleSetAddress_settled :
    Settled s (usbHandleSetAddress s setup).1 (usbHandleSetAddress s setup).2 := by
  unfold usbHandleSetAddress
  dsimp only
  split_ifs
  · exact Or.inl ⟨rfl, rfl⟩
  · exact Or.inl ⟨rfl, rfl⟩
  all_goals
    obtain ⟨hsize, hcount, hendpoints⟩ := same_usbStateCallback _
    exact Or.inr ⟨⟨hsize, hcount, hendpoints⟩, rfl, by simp, by simp, by simp⟩

theorem usbHandleSetConfiguration_settled :
    Settled s (usbHandleSetConfiguration s setup).1 (usbHandleSetConfiguration s setup).2 := by
  unfold usbHandleSetConfiguration
  dsimp only
  split_ifs
  · exact Or.inl ⟨rfl, rfl⟩
  · exact Or.inl ⟨rfl, rfl⟩
  · exact Or.inl ⟨rfl, rfl⟩
  all_goals
    obtain ⟨hsize, hcount, hendpoints⟩ := same_usbStateCallback _
    exact Or.inr ⟨⟨hsize, hcount, hendpoints⟩, rfl, by simp, by simp, by simp⟩

/-! ### Requests for data -/

/-- A reply that is ready to be sent: `asked` bytes of the data are wanted. -/
structure Offers (t : Tables) (s' : Controller) (asked : Nat) (data : List UInt8) : Prop where
  callback : s'.dataCallback = true
  count : s'.residualCount.toNat = min asked data.length
  expected : s'.expected.toNat = asked ∨ s'.residualCount.toNat < s'.packetSize.toNat
  holds : ∃ p, s'.residualData = some p ∧ Holds t s' p data

/-- What a handler of a request for data leaves behind, and what that is when the request meets the
    condition -/
structure Handled (t : Tables) (s s' : Controller) (setup : ControlRequest) (reply : Reply)
    (careful : Prop) (asked : Nat) : Prop where
  same : Same s s'
  stall : reply = .stall → Unchanged s s'
  ready : Ready s → reply ≠ .done → Ready s'
  offers : reply = .data → careful → ∃ data, Requested t s setup data ∧ Offers t s' asked data

theorem holds_getElem {p : Pointer} {data : List UInt8}
    (h : ∀ i, readByte t s { p with offset := p.offset + i } = data[i]?) : Holds t s p data := by
  intro i hi
  rw [h, List.getElem?_eq_getElem hi]

theorem usbHandleGetStatus_cases (s : Controller) (setup : ControlRequest) :
    usbHandleGetStatus s setup = (s, .stall) ∨
    ∃ storage, usbHandleGetStatus s setup =
        ({ s with residualData := some ⟨storage, 0⟩, residualCount := 2, dataCallback := true },
          .data) ∧
      setup.wValue = 0 ∧ setup.wLength = 2 ∧
      ((setup.recipient = USB_SETUP_RECIPIENT_DEVICE ∧ storage = .deviceStatus) ∨
        (setup.recipient = USB_SETUP_RECIPIENT_INTERFACE ∧
          s.deviceState = USB_DEVICE_STATE_CONFIGURED ∧ storage = .zero) ∨
        (setup.recipient = USB_SETUP_RECIPIENT_ENDPOINT ∧
          (setup.wIndex &&& 0x7F).toNat < s.endpointCount.toNat ∧
          storage = .endpointStatus (setup.wIndex &&& 0x7F).toNat)) := by
  unfold usbHandleGetStatus
  dsimp only
  split_ifs with hfields hdefault hdevice hinterface hstate hendpoint haddress hindex
  · exact Or.inl rfl
  · exact Or.inl rfl
  · rw [not_or, not_not, not_not] at hfields
    exact Or.inr ⟨_, rfl, hfields.1, hfields.2, Or.inl ⟨hdevice, rfl⟩⟩
  · exact Or.inl rfl
  · rw [not_or, not_not, not_not] at hfields
    exact Or.inr ⟨_, rfl, hfields.1, hfields.2, Or.inr (Or.inl ⟨hinterface, not_not.mp hstate, rfl⟩)⟩
  · exact Or.inl rfl
  · exact Or.inl rfl
  · rw [not_or, not_not, not_not] at hfields
    refine Or.inr ⟨_, rfl, hfields.1, hfields.2, Or.inr (Or.inr ⟨hendpoint, ?_, rfl⟩)⟩
    rw [ge_iff_le, UInt16.le_iff_toNat_le, UInt8.toNat_toUInt16] at hindex
    exact Nat.lt_of_not_le hindex
  · exact Or.inl rfl

theorem usbHandleGetStatus_handled (hbRequest : setup.bRequest = USB_GET_STATUS)
    (hsize : 8 ≤ s.packetSize.toNat) (hendpoints : s.endpointStatus.length = s.endpointCount.toNat) :
    Handled t s (usbHandleGetStatus s setup).1 setup (usbHandleGetStatus s setup).2
      (setup.IsStandard ∧ ¬ AsksInterfaceStatus s setup) setup.wLength.toNat := by
  rcases usbHandleGetStatus_cases s setup with hstall | ⟨storage, hsend, hvalue, hlength, hcases⟩
  · rw [hstall]
    exact ⟨.refl s, fun _ => ⟨rfl, rfl, rfl, rfl⟩, fun h _ => h,
      fun h => absurd h (by simp)⟩
  · rw [hsend]
    have hshort : (2 : UInt16).toNat < s.packetSize.toNat := Nat.lt_of_lt_of_le (by decide) hsize
    refine ⟨⟨rfl, rfl, rfl⟩, fun h => absurd h (by simp), fun _ _ _ => Or.inr hshort, ?_⟩
    · rintro - ⟨hstandard, hinterface⟩
      have hoffers : ∀ data : List UInt8, data.length = 2 →
          (∀ i, readByte t s ⟨storage, 0 + i⟩ = data[i]?) →
          Offers t { s with
              residualData := some ⟨storage, 0⟩
              residualCount := 2
              dataCallback := true } setup.wLength.toNat data := by
        intro data hdata hread
        refine ⟨rfl, ?_, Or.inr hshort, ⟨storage, 0⟩, rfl, holds_getElem hread⟩
        rw [hdata, hlength]
        rfl
      rcases hcases with ⟨hdevice, rfl⟩ | ⟨hrecipient, hstate, -⟩ | ⟨hendpoint, hlt, rfl⟩
      · refine ⟨_, Or.inl ⟨hstandard, .deviceStatus hbRequest hdevice⟩, hoffers _ rfl fun i => ?_⟩
        simp [readByte]
      · exact absurd ⟨hbRequest, hvalue, hlength, hstate, hrecipient⟩ hinterface
      · have hlt' : (setup.wIndex &&& 0x7F).toNat < s.endpointStatus.length := hendpoints ▸ hlt
        have hstatus : s.endpointStatus[(setup.wIndex &&& 0x7F).toNat]? =
            some s.endpointStatus[(setup.wIndex &&& 0x7F).toNat] := List.getElem?_eq_getElem hlt'
        refine ⟨_, Or.inl ⟨hstandard, .endpointStatus hbRequest hendpoint hstatus⟩,
          hoffers _ rfl fun i => ?_⟩
        simp only [readByte, hstatus, Option.bind_some, Nat.zero_add]

theorem usbHandleGetConfiguration_handled (hbRequest : setup.bRequest = USB_GET_CONFIGURATION) :
    Handled t s (usbHandleGetConfiguration s setup).1 setup (usbHandleGetConfiguration s setup).2
      setup.IsStandard setup.wLength.toNat := by
  unfold usbHandleGetConfiguration
  split_ifs with hfields hdefault
  · exact ⟨.refl s, fun _ => ⟨rfl, rfl, rfl, rfl⟩, fun h _ => h,
      fun h => absurd h (by simp)⟩
  · exact ⟨.refl s, fun _ => ⟨rfl, rfl, rfl, rfl⟩, fun h _ => h,
      fun h => absurd h (by simp)⟩
  · have hlength : setup.wLength = 1 := by
      by_contra hne
      exact hfields (Or.inr (Or.inr hne))
    refine ⟨⟨rfl, rfl, rfl⟩, fun h => absurd h (by simp), fun _ _ _ => Or.inl (Nat.le_refl _), ?_⟩
    intro _ hstandard
    refine ⟨_, Or.inl ⟨hstandard, .configurationNum hbRequest⟩, rfl, ?_, Or.inl ?_, _, rfl,
      holds_getElem fun i => ?_⟩
    · rw [hlength]
      rfl
    · rw [hlength]
    · simp [readByte]

/-! ### Requests for descriptors -/

theorem fits_of_wanted (h : Accepted t.configuration) {header : Nat} {marker : UInt8}
    (hfirst : First t setup marker header) {lengthOf : Nat → Nat}
    (hlength : t.configuration.byte header = marker → Sound t.configuration header →
      sizeOf t.configuration header = lengthOf header + 4) :
    header + sizeofHeader + lengthOf header ≤ t.configuration.length := by
  obtain ⟨hrecord, ⟨hmarker, -⟩, -⟩ := hfirst
  obtain ⟨hlt, hsound⟩ := h.sound hrecord
  have hsize := hlength hmarker hsound
  rw [sizeofHeader]
  omega

theorem pointToRecord_spec (h : Accepted t.configuration) (s : Controller) (setup : ControlRequest)
    {marker : UInt8} {lengthOf : Nat → Nat}
    (hlength : ∀ header, t.configuration.byte header = marker → Sound t.configuration header →
      sizeOf t.configuration header = lengthOf header + 4) :
    ∃ header, pointToRecord t s setup marker lengthOf = some (header.elim s fun header =>
        point s .configuration (header + sizeofHeader) (lengthOf header)) ∧
      ((∀ g, IsRecord t.configuration g →
          InTheWay t.configuration marker (some setup.toSetupPacket) g →
          ∃ p, IsRecord t.configuration p ∧ p < g ∧
            Wanted t.configuration marker (some setup.toSetupPacket) p) →
        (∀ p, First t setup marker p ↔ header = some p) ∧
          ∀ p ∈ header, ∀ s', Holds t s' ⟨.configuration, p + sizeofHeader⟩
            (contents t.configuration (p + sizeofHeader) (lengthOf p))) := by
  obtain ⟨header, hfind, hright⟩ := findRecord_spec h setup marker
  refine ⟨header, ?_, fun hclear => ⟨fun p => ?_, fun p hp s' => ?_⟩⟩
  · rw [pointToRecord, hfind, Option.map_some]
    cases header <;> rfl
  · cases header with
    | none =>
      refine iff_of_false (fun hfirst => ?_) (by simp)
      exact hright hclear p hfirst.1 hfirst.2.1
    | some q =>
      obtain ⟨hrecord, hwanted, hbefore⟩ := hright hclear
      constructor
      · rintro ⟨hrecord', hwanted', hbefore'⟩
        rcases Nat.lt_trichotomy p q with hlt | rfl | hlt
        · exact absurd hwanted' (hbefore p hrecord' hlt)
        · rfl
        · exact absurd hwanted (hbefore' q hrecord hlt)
      · rintro hq
        obtain rfl := Option.some.inj hq
        exact ⟨hrecord, hwanted, hbefore⟩
  · obtain rfl : header = some p := hp
    exact holds_contents (fits_of_wanted h (hright hclear) (hlength p))

theorem Answer.descriptor {data : List UInt8} (hbRequest : setup.bRequest = USB_GET_DESCRIPTOR)
    (h : Answer t s setup data) :
    (∃ marker header, markerOf setup.type = some marker ∧ First t setup marker header) ∨
      setup.type = USB_STRING_DESCRIPTOR_TYPE ∧ (setup.descriptorIndex = 0 ∨
        setup.descriptorIndex = USB_FRIENDLY_STRING_NUM ∧ t.friendlyNameString.bLength ≠ 0) := by
  cases h with
  | deviceStatus hstatus => exact absurd (hbRequest.symm.trans hstatus) (by decide)
  | interfaceStatus hstatus => exact absurd (hbRequest.symm.trans hstatus) (by decide)
  | endpointStatus hstatus => exact absurd (hbRequest.symm.trans hstatus) (by decide)
  | configurationNum hnum => exact absurd (hbRequest.symm.trans hnum) (by decide)
  | device _ htype hfirst =>
    refine Or.inl ⟨_, _, ?_, hfirst⟩
    rw [htype]
    rfl
  | configuration _ htype hfirst =>
    refine Or.inl ⟨_, _, ?_, hfirst⟩
    rw [htype]
    rfl
  | language _ htype hindex => exact Or.inr ⟨htype, Or.inl hindex⟩
  | friendlyName _ htype hindex hname => exact Or.inr ⟨htype, Or.inr ⟨hindex, hname⟩⟩
  | string _ htype _ _ hfirst =>
    refine Or.inl ⟨_, _, ?_, hfirst⟩
    rw [htype]
    rfl

/-- A descriptor request finds an answer and points to it, or there is none. -/
theorem getDescriptor_spec (h : Accepted t.configuration)
    (hbRequest : setup.bRequest = USB_GET_DESCRIPTOR) (s₀ s : Controller) :
    ∃ s', getDescriptor t s setup = some s' ∧
      ((s' = s ∧ (Searchable t setup → ∀ data, ¬ Answer t s₀ setup data)) ∨
      ((markerOf setup.type).isSome ∧ ∃ storage offset length, s' = point s storage offset length ∧
        (Searchable t setup → ∃ data, Answer t s₀ setup data ∧ data.length = length ∧
          ∀ u, Holds t u ⟨storage, offset⟩ data))) := by
  have hrecord : ∀ {marker lengthOf}, markerOf setup.type = some marker →
      (∀ header, t.configuration.byte header = marker → Sound t.configuration header →
        sizeOf t.configuration header = lengthOf header + 4) →
      (setup.type = USB_STRING_DESCRIPTOR_TYPE → ¬ (setup.descriptorIndex = 0 ∨
        setup.descriptorIndex = USB_FRIENDLY_STRING_NUM ∧ t.friendlyNameString.bLength ≠ 0)) →
      (∀ header, First t setup marker header → Answer t s₀ setup
        (contents t.configuration (header + sizeofHeader) (lengthOf header))) →
      ∃ s', pointToRecord t s setup marker lengthOf = some s' ∧
        ((s' = s ∧ (Searchable t setup → ∀ data, ¬ Answer t s₀ setup data)) ∨
        ((markerOf setup.type).isSome ∧ ∃ storage offset length,
          s' = point s storage offset length ∧
          (Searchable t setup → ∃ data, Answer t s₀ setup data ∧ data.length = length ∧
            ∀ u, Holds t u ⟨storage, offset⟩ data))) := by
    intro marker lengthOf hmarker hlength hspecial hanswer
    obtain ⟨header, hpoint, hfound⟩ := pointToRecord_spec h s setup hlength
    refine ⟨_, hpoint, ?_⟩
    cases header with
    | none =>
      refine Or.inl ⟨rfl, fun hsearch data hdata => ?_⟩
      rcases hdata.descriptor hbRequest with ⟨marker', header, hmarker', hfirst⟩ | ⟨htype, hindex⟩
      · obtain rfl := Option.some.inj (hmarker.symm.trans hmarker')
        exact absurd (((hfound (hsearch.clear hbRequest _ hmarker)).1 header).mp hfirst) (by simp)
      · exact hspecial htype hindex
    | some header =>
      refine Or.inr ⟨by rw [hmarker]; rfl, _, _, _, rfl, fun hsearch => ?_⟩
      obtain ⟨hfirst, hholds⟩ := hfound (hsearch.clear hbRequest _ hmarker)
      exact ⟨_, hanswer header ((hfirst header).mpr rfl), length_contents .., hholds header rfl⟩
  unfold getDescriptor
  split_ifs with hdevice hconfiguration hstring hlanguage hname
  · have hno : setup.type ≠ USB_STRING_DESCRIPTOR_TYPE := by rw [hdevice]; decide
    exact hrecord (by rw [hdevice]; rfl) (fun header hmarker hsound => hsound.device hmarker)
      (fun htype => absurd htype hno) fun header hfirst => .device hbRequest hdevice hfirst
  · have hno : setup.type ≠ USB_STRING_DESCRIPTOR_TYPE := by rw [hconfiguration]; decide
    exact hrecord (by rw [hconfiguration]; rfl)
      (fun header hmarker hsound => hsound.configuration hmarker)
      (fun htype => absurd htype hno) fun header hfirst =>
        .configuration hbRequest hconfiguration hfirst
  · refine ⟨_, rfl, Or.inr ⟨by rw [hstring]; rfl, _, _, _, rfl, fun _ =>
      ⟨_, .language hbRequest hstring hlanguage, rfl, fun u => holds_getElem fun i => ?_⟩⟩⟩
    simp [readByte]
  · refine ⟨_, rfl, Or.inr ⟨by rw [hstring]; rfl, _, _, _, rfl, fun _ =>
      ⟨_, .friendlyName hbRequest hstring hname.1 hname.2, ?_, fun u i hi => ?_⟩⟩⟩
    · rw [List.length_take]
      exact Nat.min_eq_left t.friendlyNameString.fits
    · simp only [readByte, Nat.zero_add, List.getElem_take]
      exact List.getElem?_eq_getElem _
  · exact hrecord (by rw [hstring]; rfl) (fun header hmarker hsound => hsound.string hmarker)
      (fun _ hindex => hindex.elim hlanguage hname) fun header hfirst =>
        .string hbRequest hstring hlanguage hname hfirst
  · refine ⟨_, rfl, Or.inl ⟨rfl, fun _ data hdata => ?_⟩⟩
    have hnone : markerOf setup.type = none := by
      rw [markerOf, if_neg hdevice, if_neg hconfiguration, if_neg hstring]
    rcases hdata.descriptor hbRequest with ⟨marker, header, hmarker, -⟩ | ⟨htype, -⟩
    · exact absurd (hnone.symm.trans hmarker) (by simp)
    · exact hstring htype

/-! ### Requests that are answered from the configuration -/

/-- The reply is limited to one packet. -/
def Limited (s : Controller) : Prop :=
  s.deviceState ≤ USB_DEVICE_STATE_DEFAULT ∧ s.firstGetDescriptor = true

instance (s : Controller) : Decidable (Limited s) := inferInstanceAs (Decidable (_ ∧ _))

theorem limitFirst_expected (s : Controller) : (limitFirst s).expected.toNat =
    if Limited s then min s.expected.toNat s.packetSize.toNat else s.expected.toNat := by
  by_cases hlimited : Limited s
  · rw [if_pos hlimited, limitFirst, if_pos (show _ ∧ _ from hlimited)]
    refine UInt16.toNat_ofNat_of_lt' (Nat.lt_of_le_of_lt (Nat.min_le_left _ _) ?_)
    exact s.expected.toNat_lt
  · rw [if_neg hlimited, limitFirst, if_neg (show ¬ (_ ∧ _) from hlimited)]

theorem limitFirst_unchanged (s : Controller) :
    Same s (limitFirst s) ∧ Unchanged s (limitFirst s) := by
  unfold limitFirst
  split_ifs <;> exact ⟨⟨rfl, rfl, rfl⟩, ⟨rfl, rfl, rfl, rfl⟩⟩

theorem point_count (s : Controller) (storage : Storage) (offset length : Nat) :
    (point s storage offset length).residualCount.toNat = min s.expected.toNat length := by
  refine UInt16.toNat_ofNat_of_lt' (Nat.lt_of_le_of_lt (Nat.min_le_left _ _) ?_)
  exact s.expected.toNat_lt

theorem genericLength_eq {header : Nat}
    (h : sizeofGeneric ≤ sizeOf t.configuration header) :
    genericLength t header = sizeOf t.configuration header - sizeofGeneric := by
  have hlt : sizeOf t.configuration header < 2 ^ 16 := by
    have hlow := (t.configuration.byte (header + 2)).toNat_lt
    have hhigh := (t.configuration.byte (header + 2 + 1)).toNat_lt
    rw [UsbConfiguration.sizeOf, Configuration.word]
    omega
  have hword : t.configuration.word (header + 2) = UsbConfiguration.sizeOf t.configuration header :=
    rfl
  rw [genericLength, hword]
  rw [sizeofGeneric] at h ⊢
  omega

/-- The expected count of a request that is answered from the configuration -/
def tableLimit (s : Controller) (setup : ControlRequest) : Nat :=
  if Limited s then min setup.wLength.toNat s.packetSize.toNat else setup.wLength.toNat

theorem usbHandleConfigurationRequests_handled (h : Accepted t.configuration) (s : Controller)
    (hstatus : setup.bRequest ≠ USB_GET_STATUS)
    (hconfiguration : setup.bRequest ≠ USB_GET_CONFIGURATION) :
    ∃ s' reply, usbHandleConfigurationRequests t s setup = some (s', reply) ∧
      Handled t s s' setup reply
        ((setup.LooksStandard → setup.IsStandard) ∧ Searchable t setup) (tableLimit s setup) := by
  unfold usbHandleConfigurationRequests
  dsimp only
  by_cases hzero : setup.wLength = 0
  · rw [if_pos hzero]
    exact ⟨_, _, rfl, ⟨rfl, rfl, rfl⟩, fun hreply => absurd hreply (by simp),
      fun _ hreply => absurd rfl hreply, fun hreply => absurd hreply (by simp)⟩
  rw [if_neg hzero]
  obtain ⟨hsame, hunchanged⟩ := limitFirst_unchanged { s with expected := setup.wLength }
  have hlimit : (limitFirst { s with expected := setup.wLength }).expected.toNat =
      tableLimit s setup := limitFirst_expected _
  generalize limitFirst { s with expected := setup.wLength } = u at hsame hunchanged hlimit ⊢
  -- what is left behind when there is something to send
  have hsends : ∀ storage offset length,
      (((setup.LooksStandard → setup.IsStandard) ∧ Searchable t setup) →
        ∃ data, Requested t s setup data ∧ data.length = length ∧
          ∀ u, Holds t u ⟨storage, offset⟩ data) →
      Handled t s
        { point { u with residualData := none, residualCount := 0 } storage offset length with
          dataCallback := true } setup .data
        ((setup.LooksStandard → setup.IsStandard) ∧ Searchable t setup) (tableLimit s setup) := by
    intro storage offset length hdata
    have hcount := point_count { u with residualData := none, residualCount := 0 } storage offset
      length
    refine ⟨⟨hsame.1, hsame.2, hsame.3⟩, fun hreply => absurd hreply (by simp), fun _ _ _ => ?_, ?_⟩
    · exact Or.inl (hcount ▸ Nat.min_le_left _ _)
    · intro _ hcareful
      obtain ⟨data, hrequested, rfl, hholds⟩ := hdata hcareful
      exact ⟨data, hrequested, rfl, hlimit ▸ hcount, Or.inl hlimit, _, rfl, hholds _⟩
  obtain ⟨header, hfind, hright⟩ := findRecord_spec h setup USB_GENERIC_DESCRIPTOR_MARKER
  have hstall : ∀ v : Controller, v = { u with residualData := none, residualCount := 0 } →
      Handled t s v setup .stall ((setup.LooksStandard → setup.IsStandard) ∧ Searchable t setup)
        (tableLimit s setup) := by
    rintro v rfl
    refine ⟨⟨hsame.1, hsame.2, hsame.3⟩, fun _ => ?_, fun _ _ _ => Or.inl ?_,
      fun hreply => absurd hreply (by simp)⟩
    · exact ⟨hunchanged.1, hunchanged.2, hunchanged.3, hunchanged.4⟩
    · exact Nat.zero_le _
  have hgeneric : ∀ (v : Controller) (g : Nat), header = some g →
      v = { u with residualData := none, residualCount := 0 } →
      (Searchable t setup → ∀ data, setup.IsStandard → ¬ Answer t s setup data) →
      Handled t s
        { point v .configuration (g + sizeofGeneric) (genericLength t g) with
          dataCallback := true } setup .data
        ((setup.LooksStandard → setup.IsStandard) ∧ Searchable t setup) (tableLimit s setup) := by
    rintro v g rfl rfl hnone
    have hfirst := hright fun g _ hway => absurd hway (clear_generic _ _)
    refine hsends _ _ _ fun hcareful => ?_
    have hlong := hcareful.2.generic g hfirst
    obtain ⟨hlt, -⟩ := h.sound hfirst.1
    refine ⟨_, Or.inr ⟨hnone hcareful.2, g, hfirst, rfl⟩, ?_, fun u => holds_contents ?_⟩
    · rw [length_contents, genericLength_eq hlong]
    · omega
  by_cases hdescriptor : setup.bRequest = USB_GET_DESCRIPTOR
  · rw [if_pos hdescriptor]
    obtain ⟨v, hget, ⟨hv, hnone⟩ | ⟨hkind, storage, offset, length, rfl, hdata⟩⟩ :=
      getDescriptor_spec h hdescriptor s { u with residualData := none, residualCount := 0 }
    · rw [hget, Option.bind_eq_bind, Option.bind_some, if_neg (by rw [hv]; simp),
        hfind, Option.bind_eq_bind, Option.bind_some]
      cases header with
      | none => exact ⟨_, _, rfl, hstall v hv⟩
      | some g => exact ⟨_, _, rfl, hgeneric v g rfl hv fun hsearch data _ => hnone hsearch data⟩
    · rw [hget, Option.bind_eq_bind, Option.bind_some, if_pos (by simp [point])]
      refine ⟨_, _, rfl, hsends _ _ _ fun hcareful => ?_⟩
      obtain ⟨data, hanswer, hlength, hholds⟩ := hdata hcareful.2
      exact ⟨data, Or.inl ⟨hcareful.1 (Or.inr (Or.inr ⟨hdescriptor, hkind⟩)), hanswer⟩, hlength,
        hholds⟩
  · rw [if_neg hdescriptor, Option.bind_eq_bind, Option.bind_some, if_neg (by simp),
      hfind, Option.bind_eq_bind, Option.bind_some]
    cases header with
    | none => exact ⟨_, _, rfl, hstall _ rfl⟩
    | some g =>
      refine ⟨_, _, rfl, hgeneric _ g rfl rfl fun _ data _ hanswer => ?_⟩
      cases hanswer with
      | deviceStatus hbRequest => exact hstatus hbRequest
      | interfaceStatus hbRequest => exact hstatus hbRequest
      | endpointStatus hbRequest => exact hstatus hbRequest
      | configurationNum hbRequest => exact hconfiguration hbRequest
      | device hbRequest => exact hdescriptor hbRequest
      | configuration hbRequest => exact hdescriptor hbRequest
      | language hbRequest => exact hdescriptor hbRequest
      | friendlyName hbRequest => exact hdescriptor hbRequest
      | string hbRequest => exact hdescriptor hbRequest

end TinyClr.UsbControl
