import TinyClr.Library.ByteFields
import TinyClr.Library.Runs
import TinyClr.Pal.UsbConfiguration

/-!
# USB control requests

`USB_ControlCallback` of `DeviceCode/pal/COM/usb/usb.cpp` answers a setup packet: a handler leaves a
pointer, a count and `Expected` behind, and `USB_DataCallback` sends packets from there whenever the
lower layer asks for one.

A pointer is a place in an object.  A byte is read from it if the object is still there and has a byte
at that place; the words are little-endian.  The queues of the endpoints take no part in the replies
and are left out.
-/

namespace TinyClr.UsbControl

open TinyClr.Library
open TinyClr.UsbConfiguration

/-! ### Data -/

def USB_GET_STATUS : UInt8 := 0
def USB_CLEAR_FEATURE : UInt8 := 1
def USB_SET_FEATURE : UInt8 := 3
def USB_SET_ADDRESS : UInt8 := 5
def USB_GET_DESCRIPTOR : UInt8 := 6
def USB_GET_CONFIGURATION : UInt8 := 8
def USB_SET_CONFIGURATION : UInt8 := 9

def USB_SETUP_RECIPIENT_DEVICE : UInt8 := 0
def USB_SETUP_RECIPIENT_INTERFACE : UInt8 := 1
def USB_SETUP_RECIPIENT_ENDPOINT : UInt8 := 2

def USB_STATUS_DEVICE_REMOTE_WAKEUP : UInt16 := 2
def USB_STATUS_ENDPOINT_HALT : UInt16 := 1
def USB_FEATURE_DEVICE_REMOTE_WAKEUP : UInt16 := 1
def USB_FEATURE_ENDPOINT_HALT : UInt16 := 0
def USB_ATTRIBUTE_REMOTE_WAKEUP : UInt8 := 0x20

def USB_DEVICE_STATE_DETACHED : UInt8 := 0
def USB_DEVICE_STATE_DEFAULT : UInt8 := 3
def USB_DEVICE_STATE_ADDRESS : UInt8 := 4
def USB_DEVICE_STATE_CONFIGURED : UInt8 := 5

def USB_FRIENDLY_STRING_NUM : UInt8 := 5

def sizeofGeneric : Nat := 10

def USB_LanguageDescriptor : List UInt8 := [4, USB_STRING_DESCRIPTOR_TYPE, 0x09, 0x04]

/-- What `USB_ControlCallback` returns -/
inductive Reply where
  | data
  | stall
  | done
  | address
  | status
  | configuration
  | remoteWakeup
deriving DecidableEq, Repr

structure ControlRequest extends SetupPacket where
  wLength : UInt16
deriving DecidableEq, Repr

/-- The objects that `ResidualData` points into; `zero` is the local variable of
    `USB_HandleGetStatus`. -/
inductive Storage where
  | configuration
  | languageDescriptor
  | friendlyNameString
  | deviceStatus
  | endpointStatus (endpoint : Nat)
  | configurationNum
  | zero
deriving DecidableEq, Repr

structure Pointer where
  storage : Storage
  offset : Nat
deriving DecidableEq, Repr

/-- `FriendlyNameString`; its first byte is `bLength`. -/
structure FriendlyName where
  bytes : List UInt8
  fits : (bytes.headD 0).toNat ≤ bytes.length

def FriendlyName.bLength (name : FriendlyName) : UInt8 := name.bytes.headD 0

/-- What stays as it is while the controller runs -/
structure Tables where
  configuration : Configuration
  friendlyNameString : FriendlyName

/-- `USB_CONTROLLER_STATE`, as far as control requests go; `data` is the packet in `State->Data`, where
    `none` stands for a byte that was read from outside of an object. -/
structure Controller where
  deviceState : UInt8
  currentState : UInt8
  address : UInt8
  packetSize : UInt8
  configurationNum : UInt8
  firstGetDescriptor : Bool
  deviceStatus : UInt16
  endpointStatus : List UInt16
  endpointCount : UInt8
  endpointStatusChange : UInt8
  dataCallback : Bool
  residualData : Option Pointer
  residualCount : UInt16
  expected : UInt16
  dataSize : UInt8
  data : List (Option UInt8)
deriving DecidableEq, Repr

/-! ### `USB_StateCallback` -/

def usbStateCallback (s : Controller) : Controller :=
  if s.currentState ≠ s.deviceState then
    let s := { s with currentState := s.deviceState }
    if s.deviceState = USB_DEVICE_STATE_DETACHED then
      { s with residualCount := 0, dataCallback := false }
    else s
  else s

/-! ### `USB_DataCallback` -/

section Data

variable (t : Tables)

def readByte (s : Controller) (p : Pointer) : Option UInt8 :=
  match p.storage with
  | .configuration =>
      if p.offset < t.configuration.length then some (t.configuration.byte p.offset) else none
  | .languageDescriptor => USB_LanguageDescriptor[p.offset]?
  | .friendlyNameString => t.friendlyNameString.bytes[p.offset]?
  | .deviceStatus => (bytes16 s.deviceStatus.toNat)[p.offset]?
  | .endpointStatus endpoint =>
      s.endpointStatus[endpoint]?.bind fun status => (bytes16 status.toNat)[p.offset]?
  | .configurationNum => [s.configurationNum][p.offset]?
  -- the handler has returned
  | .zero => none

def copyFrom (s : Controller) (p : Option Pointer) (length : Nat) : List (Option UInt8) :=
  (List.range length).map fun i =>
    p.bind fun p => readByte t s { p with offset := p.offset + i }

def usbDataCallback (s : Controller) : Controller :=
  let length := min s.packetSize.toNat s.residualCount.toNat
  let expected := if length = s.packetSize.toNat then s.expected - UInt16.ofNat length else 0
  { s with
    data := copyFrom t s s.residualData length
    dataSize := UInt8.ofNat length
    residualData := s.residualData.map fun p => { p with offset := p.offset + length }
    residualCount := s.residualCount - UInt16.ofNat length
    expected := expected
    dataCallback := expected ≠ 0 }

end Data

/-! ### Handlers -/

section Handlers

variable (t : Tables) (s : Controller) (setup : ControlRequest)

def ControlRequest.recipient (setup : ControlRequest) : UInt8 := setup.bmRequestType &&& 0x0F

/-- `USB_FindRecord` of the controller; as many records as the configuration has bytes are enough.
    `none`: it does not return. -/
def findRecord (marker : UInt8) : Option (Option Nat) :=
  match usbFindRecord t.configuration t.configuration.length marker (some setup.toSetupPacket) with
  | some (.header header) => some header
  | some .nullSetup => none
  | none => none

def usbHandleGetStatus : Controller × Reply :=
  if setup.wValue ≠ 0 ∨ setup.wLength ≠ 2 then (s, .stall)
  else if s.deviceState = USB_DEVICE_STATE_DEFAULT then (s, .stall)
  else
    let send (status : Storage) : Controller × Reply :=
      ({ s with residualData := some ⟨status, 0⟩, residualCount := 2, dataCallback := true }, .data)
    if setup.recipient = USB_SETUP_RECIPIENT_DEVICE then send .deviceStatus
    else if setup.recipient = USB_SETUP_RECIPIENT_INTERFACE then
      if s.deviceState ≠ USB_DEVICE_STATE_CONFIGURED then (s, .stall) else send .zero
    else if setup.recipient = USB_SETUP_RECIPIENT_ENDPOINT then
      if s.deviceState = USB_DEVICE_STATE_ADDRESS ∧ setup.wIndex ≠ 0 then (s, .stall)
      else
        let wIndex := setup.wIndex &&& 0x7F
        if wIndex ≥ s.endpointCount.toUInt16 then (s, .stall)
        else send (.endpointStatus wIndex.toNat)
    else (s, .stall)

def bmAttributes (header : Nat) : UInt8 := t.configuration.byte (header + 11)

def changeEndpoint (change : UInt16 → UInt16) : Controller × Reply :=
  if s.deviceState = USB_DEVICE_STATE_ADDRESS ∧ setup.wIndex ≠ 0 then (s, .stall)
  else
    let wIndex := setup.wIndex &&& 0x7F
    if wIndex = 0 ∨ wIndex ≥ s.endpointCount.toUInt16 then (s, .stall)
    else if setup.wValue ≠ USB_FEATURE_ENDPOINT_HALT then (s, .stall)
    else
      ({ s with
          endpointStatus := s.endpointStatus.modify wIndex.toNat change
          endpointStatusChange := wIndex.toUInt8
          residualCount := 0
          dataCallback := true }, .status)

def usbHandleClearFeature : Option (Controller × Reply) :=
  if setup.wLength ≠ 0 then some (s, .stall)
  else if s.deviceState ≠ USB_DEVICE_STATE_CONFIGURED then some (s, .stall)
  else if setup.recipient = USB_SETUP_RECIPIENT_DEVICE then
    if setup.wValue ≠ USB_FEATURE_DEVICE_REMOTE_WAKEUP then some (s, .stall)
    else do
      match ← findRecord t setup USB_CONFIGURATION_DESCRIPTOR_MARKER with
      | some config =>
          if bmAttributes t config &&& USB_ATTRIBUTE_REMOTE_WAKEUP ≠ 0 then
            return ({ s with
                deviceStatus := s.deviceStatus &&& ~~~USB_STATUS_DEVICE_REMOTE_WAKEUP
                residualCount := 0
                dataCallback := true }, .remoteWakeup)
          else return (s, .stall)
      | none => return (s, .stall)
  else if setup.recipient = USB_SETUP_RECIPIENT_INTERFACE then some (s, .stall)
  else if setup.recipient = USB_SETUP_RECIPIENT_ENDPOINT then
    some (changeEndpoint s setup fun status => status &&& ~~~USB_STATUS_ENDPOINT_HALT)
  else some (s, .stall)

def usbHandleSetFeature : Option (Controller × Reply) :=
  if setup.wLength ≠ 0 then some (s, .stall)
  else if s.deviceState = USB_DEVICE_STATE_DEFAULT then some (s, .stall)
  else if setup.recipient = USB_SETUP_RECIPIENT_DEVICE then
    if setup.wValue ≠ USB_FEATURE_DEVICE_REMOTE_WAKEUP then some (s, .stall)
    else do
      match ← findRecord t setup USB_CONFIGURATION_DESCRIPTOR_MARKER with
      | none => return (s, .stall)
      | some config =>
          let deviceStatus :=
            if bmAttributes t config &&& USB_ATTRIBUTE_REMOTE_WAKEUP ≠ 0 then
              s.deviceStatus ||| USB_STATUS_DEVICE_REMOTE_WAKEUP
            else s.deviceStatus
          return ({ s with
              deviceStatus := deviceStatus
              residualCount := 0
              dataCallback := true }, .remoteWakeup)
  else if setup.recipient = USB_SETUP_RECIPIENT_INTERFACE then some (s, .stall)
  else if setup.recipient = USB_SETUP_RECIPIENT_ENDPOINT then
    some (changeEndpoint s setup fun status => status ||| USB_STATUS_ENDPOINT_HALT)
  else some (s, .stall)

def usbHandleSetAddress : Controller × Reply :=
  if setup.wValue > 127 ∨ setup.wIndex ≠ 0 ∨ setup.wLength ≠ 0 then (s, .stall)
  else if s.deviceState ≥ USB_DEVICE_STATE_CONFIGURED then (s, .stall)
  else
    let address := setup.wValue.toUInt8
    let deviceState := if address = 0 then USB_DEVICE_STATE_DEFAULT else USB_DEVICE_STATE_ADDRESS
    let s := usbStateCallback { s with address := address, deviceState := deviceState }
    ({ s with residualCount := 0, dataCallback := true }, .address)

/-- The high byte of `wValue` -/
def ControlRequest.type (setup : ControlRequest) : UInt8 :=
  ((setup.wValue &&& 0xFF00) >>> 8).toUInt8

def ControlRequest.descriptorIndex (setup : ControlRequest) : UInt8 :=
  (setup.wValue &&& 0x00FF).toUInt8

/-- A pointer to the reply, and the lesser of its length and what is expected -/
def point (storage : Storage) (offset length : Nat) : Controller :=
  { s with
    residualData := some ⟨storage, offset⟩
    residualCount := UInt16.ofNat (min s.expected.toNat length) }

/-- A descriptor in the record that is found; its length is a field of it. -/
def pointToRecord (marker : UInt8) (lengthOf : Nat → Nat) : Option Controller :=
  (findRecord t setup marker).map fun
    | some header => point s .configuration (header + sizeofHeader) (lengthOf header)
    | none => s

def bLength (header : Nat) : Nat := (t.configuration.byte (header + 4)).toNat

def wTotalLength (header : Nat) : Nat := t.configuration.word (header + 6)

/-- The `switch( type )` of a descriptor request -/
def getDescriptor : Option Controller :=
  if setup.type = USB_DEVICE_DESCRIPTOR_TYPE then
    pointToRecord t s setup USB_DEVICE_DESCRIPTOR_MARKER (bLength t)
  else if setup.type = USB_CONFIGURATION_DESCRIPTOR_TYPE then
    pointToRecord t s setup USB_CONFIGURATION_DESCRIPTOR_MARKER (wTotalLength t)
  else if setup.type = USB_STRING_DESCRIPTOR_TYPE then
    if setup.descriptorIndex = 0 then
      some (point s .languageDescriptor 0 USB_LanguageDescriptor.length)
    else if setup.descriptorIndex = USB_FRIENDLY_STRING_NUM ∧ t.friendlyNameString.bLength ≠ 0 then
      some (point s .friendlyNameString 0 t.friendlyNameString.bLength.toNat)
    else pointToRecord t s setup USB_STRING_DESCRIPTOR_MARKER (bLength t)
  else some s

/-- `header->size - sizeof(USB_GENERIC_DESCRIPTOR_HEADER)`, which is a 32-bit word -/
def genericLength (header : Nat) : Nat :=
  (t.configuration.word (header + 2) + 2 ^ 32 - sizeofGeneric) % 2 ^ 32

/-- The very first `GET_DESCRIPTOR` out of reset gets at most one packet. -/
def limitFirst : Controller :=
  if s.deviceState ≤ USB_DEVICE_STATE_DEFAULT ∧ s.firstGetDescriptor then
    { s with
      firstGetDescriptor := false
      expected := UInt16.ofNat (min s.expected.toNat s.packetSize.toNat) }
  else s

def usbHandleConfigurationRequests : Option (Controller × Reply) := do
  let s := { s with expected := setup.wLength }
  if s.expected = 0 then return (s, .done)
  else
    let s := { limitFirst s with residualData := none, residualCount := 0 }
    let s ← if setup.bRequest = USB_GET_DESCRIPTOR then getDescriptor t s setup else some s
    if s.residualData.isSome then return ({ s with dataCallback := true }, .data)
    else
      match ← findRecord t setup USB_GENERIC_DESCRIPTOR_MARKER with
      | some header =>
          let s := point s .configuration (header + sizeofGeneric) (genericLength t header)
          return ({ s with dataCallback := true }, .data)
      | none => return (s, .stall)

def usbHandleGetConfiguration : Controller × Reply :=
  if setup.wValue ≠ 0 ∨ setup.wIndex ≠ 0 ∨ setup.wLength ≠ 1 then (s, .stall)
  else if s.deviceState = USB_DEVICE_STATE_DEFAULT then (s, .stall)
  else
    ({ s with
        residualData := some ⟨.configurationNum, 0⟩
        residualCount := 1
        expected := 1
        dataCallback := true }, .data)

def usbHandleSetConfiguration : Controller × Reply :=
  if setup.wIndex ≠ 0 ∨ setup.wLength ≠ 0 then (s, .stall)
  else if s.deviceState = USB_DEVICE_STATE_DEFAULT then (s, .stall)
  else if setup.wValue > 1 then (s, .stall)
  else
    let configurationNum := setup.wValue.toUInt8
    let deviceState :=
      if configurationNum = 0 then USB_DEVICE_STATE_ADDRESS else USB_DEVICE_STATE_CONFIGURED
    let s := usbStateCallback { s with
      configurationNum := configurationNum
      deviceState := deviceState }
    ({ s with residualCount := 0, dataCallback := true }, .configuration)

def usbControlCallback : Option (Controller × Reply) :=
  if s.dataSize = 0 then some (s, .done)
  else if setup.bRequest = USB_GET_STATUS then some (usbHandleGetStatus s setup)
  else if setup.bRequest = USB_CLEAR_FEATURE then usbHandleClearFeature t s setup
  else if setup.bRequest = USB_SET_FEATURE then usbHandleSetFeature t s setup
  else if setup.bRequest = USB_SET_ADDRESS then some (usbHandleSetAddress s setup)
  else if setup.bRequest = USB_GET_CONFIGURATION then some (usbHandleGetConfiguration s setup)
  else if setup.bRequest = USB_SET_CONFIGURATION then some (usbHandleSetConfiguration s setup)
  else usbHandleConfigurationRequests t s setup

end Handlers

/-! ### The lower layer -/

/-- What the drivers do: they hand over a packet that was received on the control endpoint, ask for
    the next packet to send if there is a callback, and report a bus reset and other changes of the
    device state.  The STM32 driver sets `FirstGetDescriptor` again on a reset, the others leave it. -/
inductive Event where
  | setup (dataSize : UInt8) (packet : ControlRequest)
  | next
  | reset (restart : Bool)
  | deviceState (state : UInt8)
deriving DecidableEq, Repr

def receive (t : Tables) (s : Controller) (dataSize : UInt8) (packet : ControlRequest) :
    Option (Controller × Reply) :=
  (usbControlCallback t { s with dataSize := dataSize } packet).map fun (s, reply) =>
    (if reply = .done then { s with dataCallback := false } else s, reply)

/-- A packet is sent, as long as there is a callback. -/
def sendStep (t : Tables) :
    Controller × List (List (Option UInt8)) →
      Except (Controller × List (List (Option UInt8))) (Controller × List (List (Option UInt8)))
  | (s, packets) =>
      if s.dataCallback then
        let s := usbDataCallback t s
        .ok (s, packets ++ [s.data])
      else .error (s, packets)

def resetEvent (s : Controller) (restart : Bool) : Controller :=
  usbStateCallback { s with
    firstGetDescriptor := restart || s.firstGetDescriptor
    deviceState := USB_DEVICE_STATE_DEFAULT
    address := 0 }

def step (t : Tables) (s : Controller) : Event → Option (Controller × Option Reply)
  | .setup dataSize packet =>
      (receive t s dataSize packet).map fun (s, reply) => (s, some reply)
  | .next => some (if s.dataCallback then usbDataCallback t s else s, none)
  | .reset restart => some (resetEvent s restart, none)
  | .deviceState state => some (usbStateCallback { s with deviceState := state }, none)

end TinyClr.UsbControl
