import TinyClr.Library.Loops

/-!
# USB configurations

A configuration is a list of records in memory, each with its own size.  `UsbConfigurationCheck`,
`USB_FindRecord` and `USB_NextEndpoint` of `DeviceCode/pal/COM/usb/usb.cpp` walk along it.

The loops of the source are steps between their heads: a step is one run through the body.  A read of
the check is one byte or one word; it fails if it lies outside of the record or of the configuration.
-/

namespace TinyClr.UsbConfiguration

open TinyClr.Library

/-! ### Data -/

/-- Memory from the configuration on; `length` bytes of it are the configuration. -/
structure Configuration where
  byte : Nat → UInt8
  length : Nat

def Configuration.word (c : Configuration) (p : Nat) : Nat :=
  (c.byte p).toNat + 256 * (c.byte (p + 1)).toNat

def USB_END_DESCRIPTOR_MARKER : UInt8 := 0x00
def USB_DEVICE_DESCRIPTOR_MARKER : UInt8 := 0x01
def USB_CONFIGURATION_DESCRIPTOR_MARKER : UInt8 := 0x02
def USB_STRING_DESCRIPTOR_MARKER : UInt8 := 0x03
def USB_GENERIC_DESCRIPTOR_MARKER : UInt8 := 0xFF

def USB_DEVICE_DESCRIPTOR_TYPE : UInt8 := 1
def USB_CONFIGURATION_DESCRIPTOR_TYPE : UInt8 := 2
def USB_STRING_DESCRIPTOR_TYPE : UInt8 := 3
def USB_INTERFACE_DESCRIPTOR_TYPE : UInt8 := 4
def USB_ENDPOINT_DESCRIPTOR_TYPE : UInt8 := 5

def USB_DEVICE_DESCRIPTOR_LENGTH : UInt8 := 18
def USB_CONFIGURATION_DESCRIPTOR_LENGTH : UInt8 := 9

/-- `sizeof(USB_DESCRIPTOR_HEADER)`: marker, value, and the size of the record as a word -/
def sizeofHeader : Nat := 4

def sizeofDevice : Nat := 22

def sizeofConfiguration : Nat := 13

def sizeofInterface : UInt8 := 9

def sizeofEndpoint : UInt8 := 7

/-- The `USB_CONFIGURATION_ERRORS` of the check -/
inductive ConfigurationError where
  | ok
  | missingRecord
  | dupDevice
  | deviceSize
  | deviceType
  | ep0Size
  | nConfigs
  | dupConfig
  | configSize
  | configType
  | noInterface
  | configNum
  | configAttr
  | interfaceLen
  | interfaceType
  | interfaceAlt
  | noEndpoint
  | endpointLen
  | endpointType
  | endpointAttr
  | stringSize
  | stringType
  | genericDir
  | unknownRecord
  | endpointRange
  | dupEndpoint
  | dupInterface
  | tooManyItfc
deriving DecidableEq, Repr

/-- How the check ends -/
inductive Outcome where
  | returned (recordError : ConfigurationError)
  | outside
deriving DecidableEq, Repr

namespace Configuration

variable (c : Configuration)

/-! ### Reads of the check -/

def readByte (last p : Nat) : Except Outcome UInt8 :=
  if p < last ∧ p < c.length then .ok (c.byte p) else .error .outside

def readWord (last p : Nat) : Except Outcome Nat :=
  if p + 1 < last ∧ p + 1 < c.length then .ok (c.word p) else .error .outside

end Configuration

/-! ### `UsbConfigurationCheck` -/

/-- What the loops over a configuration descriptor share; `epUsed` and `itfcUsed` are first written
    here, since there is no second descriptor to come here. -/
structure Frame where
  next : Nat
  foundDevice : Bool
  nInterfaces : Nat
  itfcUsed : List UInt8
  epUsed : Nat → Bool

/-- The heads of the loops: over the records, over the interfaces of the configuration descriptor,
    over class descriptors, and over the endpoints of an interface -/
inductive Check where
  | records (record : Nat) (foundDevice foundConfig : Bool)
  | interfaces (frame : Frame) (interface : Nat)
  | classes (frame : Frame) (recordError : ConfigurationError) (nEndpoints endpoint : Nat)
  | endpoints (frame : Frame) (recordError : ConfigurationError) (nEndpoints endpoint : Nat)

abbrev Step := Except Outcome Check

def fail (recordError : ConfigurationError) : Step := .error (.returned recordError)

section Check

variable (c : Configuration)

/-- `USB_DEVICE_DESCRIPTOR_MARKER` -/
def checkDevice (record size : Nat) (foundDevice foundConfig : Bool) : Step :=
  if foundDevice then fail .dupDevice
  else if size ≠ sizeofDevice then fail .deviceSize
  else do
    let next := record + size
    let bLength ← c.readByte next (record + 4)
    if bLength ≠ USB_DEVICE_DESCRIPTOR_LENGTH then fail .deviceSize
    else
      let bDescriptorType ← c.readByte next (record + 5)
      if bDescriptorType ≠ USB_DEVICE_DESCRIPTOR_TYPE then fail .deviceType
      else
        let bMaxPacketSize0 ← c.readByte next (record + 11)
        if bMaxPacketSize0 ≠ 8 ∧ bMaxPacketSize0 ≠ 16 ∧ bMaxPacketSize0 ≠ 32 ∧ bMaxPacketSize0 ≠ 64
        then fail .ep0Size
        else
          let bNumConfigurations ← c.readByte next (record + 21)
          if bNumConfigurations ≠ 1 then fail .nConfigs
          else .ok (.records next true foundConfig)

/-- `USB_CONFIGURATION_DESCRIPTOR_MARKER`, up to the first interface -/
def checkConfiguration (record size : Nat) (foundDevice foundConfig : Bool) : Step :=
  if foundConfig then fail .dupConfig
  else do
    let next := record + size
    let bLength ← c.readByte next (record + 4)
    if bLength ≠ USB_CONFIGURATION_DESCRIPTOR_LENGTH then fail .configSize
    else
      let wTotalLength ← c.readWord next (record + 6)
      if size ≠ wTotalLength + sizeofHeader then fail .configSize
      else
        let bDescriptorType ← c.readByte next (record + 5)
        if bDescriptorType ≠ USB_CONFIGURATION_DESCRIPTOR_TYPE then fail .configType
        else
          let nInterfaces ← c.readByte next (record + 8)
          if nInterfaces = 0 then fail .noInterface
          else
            let bConfigurationValue ← c.readByte next (record + 9)
            if bConfigurationValue > 1 then fail .configNum
            else
              let bmAttributes ← c.readByte next (record + 11)
              if bmAttributes &&& 0x8F ≠ 0x80 then fail .configAttr
              else
                .ok (.interfaces ⟨next, foundDevice, nInterfaces.toNat, List.replicate 10 0xFF,
                  fun _ => false⟩ (record + sizeofConfiguration))

/-- `USB_STRING_DESCRIPTOR_MARKER` -/
def checkString (record size : Nat) (foundDevice foundConfig : Bool) : Step := do
  let next := record + size
  let bLength ← c.readByte next (record + 4)
  if size ≠ bLength.toNat + sizeofHeader then fail .stringSize
  else
    let bDescriptorType ← c.readByte next (record + 5)
    if bDescriptorType ≠ USB_STRING_DESCRIPTOR_TYPE then fail .stringType
    else .ok (.records next foundDevice foundConfig)

/-- `USB_GENERIC_DESCRIPTOR_MARKER` -/
def checkGeneric (record size : Nat) (foundDevice foundConfig : Bool) : Step := do
  let next := record + size
  let bmRequestType ← c.readByte next (record + 4)
  if bmRequestType &&& 0x80 ≠ 0x80 then fail .genericDir
  else .ok (.records next foundDevice foundConfig)

def checkRecord (record : Nat) (foundDevice foundConfig : Bool) : Step := do
  let size ← c.readWord (record + sizeofHeader) (record + 2)
  let marker ← c.readByte (record + sizeofHeader) record
  if marker = USB_END_DESCRIPTOR_MARKER then
    if foundDevice ∧ foundConfig then fail .ok else fail .missingRecord
  else if marker = USB_DEVICE_DESCRIPTOR_MARKER then
    checkDevice c record size foundDevice foundConfig
  else if marker = USB_CONFIGURATION_DESCRIPTOR_MARKER then
    checkConfiguration c record size foundDevice foundConfig
  else if marker = USB_STRING_DESCRIPTOR_MARKER then
    checkString c record size foundDevice foundConfig
  else if marker = USB_GENERIC_DESCRIPTOR_MARKER then
    checkGeneric c record size foundDevice foundConfig
  else fail .unknownRecord

/-- `for( i = 0; itfcUsed[i] != 0xFF && i < 10; i++ )`: the index, and whether the number is there
    already.  Past the ten entries the entry is read first. -/
def seekItfc (bInterfaceNumber : UInt8) : List UInt8 → Except Outcome (Nat × Bool)
  | [] => .error .outside
  | used :: rest =>
      if used = 0xFF then .ok (0, false)
      else if used = bInterfaceNumber then .ok (0, true)
      else do
        let (i, found) ← seekItfc bInterfaceNumber rest
        return (i + 1, found)

def checkInterface (frame : Frame) (interface : Nat) : Step :=
  match frame.nInterfaces with
  | 0 =>
      if interface = frame.next then .ok (.records frame.next frame.foundDevice true)
      else fail .configSize
  | nInterfaces + 1 => do
      let bDescriptorType ← c.readByte frame.next (interface + 1)
      if bDescriptorType ≠ USB_INTERFACE_DESCRIPTOR_TYPE then fail .interfaceType
      else
        let bLength ← c.readByte frame.next interface
        if bLength ≠ sizeofInterface then fail .interfaceLen
        else
          let bAlternateSetting ← c.readByte frame.next (interface + 3)
          if bAlternateSetting ≠ 0 then fail .interfaceAlt
          else
            let nEndpoints ← c.readByte frame.next (interface + 4)
            if nEndpoints = 0 then fail .noEndpoint
            else
              let bInterfaceNumber ← c.readByte frame.next (interface + 2)
              let (i, found) ← seekItfc bInterfaceNumber frame.itfcUsed
              if i ≥ 10 then fail .tooManyItfc
              else
                -- a number that is used twice is an error, but the endpoints are still checked
                .ok (.classes { frame with
                    nInterfaces := nInterfaces
                    itfcUsed := frame.itfcUsed.set i bInterfaceNumber }
                  (if found then .dupInterface else .ok) nEndpoints.toNat
                  (interface + sizeofInterface.toNat))

def checkClass (frame : Frame) (recordError : ConfigurationError) (nEndpoints endpoint : Nat) :
    Step := do
  let bDescriptorType ← c.readByte frame.next (endpoint + 1)
  if bDescriptorType = USB_ENDPOINT_DESCRIPTOR_TYPE then
    .ok (.endpoints frame recordError nEndpoints endpoint)
  else
    let bLength ← c.readByte frame.next endpoint
    .ok (.classes frame recordError nEndpoints (endpoint + bLength.toNat))

def checkEndpoint (frame : Frame) (recordError : ConfigurationError) (nEndpoints endpoint : Nat) :
    Step :=
  match nEndpoints with
  | 0 =>
      if recordError ≠ .ok then fail recordError
      else .ok (.interfaces frame endpoint)
  | nEndpoints + 1 => do
      let bDescriptorType ← c.readByte frame.next (endpoint + 1)
      if bDescriptorType ≠ USB_ENDPOINT_DESCRIPTOR_TYPE then fail .endpointType
      else
        let bLength ← c.readByte frame.next endpoint
        if bLength ≠ sizeofEndpoint then fail .endpointLen
        else
          let bEndpointAddress ← c.readByte frame.next (endpoint + 2)
          let number := (bEndpointAddress &&& 0x7F).toNat
          if number < 1 ∨ number > 31 then fail .endpointRange
          else
            let bmAttributes ← c.readByte frame.next (endpoint + 3)
            if bmAttributes &&& 0x03 = 0 ∨ bmAttributes &&& 0xC0 ≠ 0 then fail .endpointAttr
            else if number - 1 ≥ 31 then .error .outside
            else if frame.epUsed (number - 1) then fail .dupEndpoint
            else
              let epUsed := fun i => if i = number - 1 then true else frame.epUsed i
              .ok (.endpoints { frame with epUsed := epUsed } recordError nEndpoints
                (endpoint + sizeofEndpoint.toNat))

/-- One run through the body of the loop that the check is in -/
def checkStep : Check → Step
  | .records record foundDevice foundConfig => checkRecord c record foundDevice foundConfig
  | .interfaces frame interface => checkInterface c frame interface
  | .classes frame recordError nEndpoints endpoint =>
      checkClass c frame recordError nEndpoints endpoint
  | .endpoints frame recordError nEndpoints endpoint =>
      checkEndpoint c frame recordError nEndpoints endpoint

def usbConfigurationCheck (fuel : Nat) : Option Outcome :=
  loop (checkStep c) fuel (.records 0 false false)

end Check

/-! ### `USB_FindRecord` -/

structure SetupPacket where
  bmRequestType : UInt8
  bRequest : UInt8
  wValue : UInt16
  wIndex : UInt16
deriving DecidableEq, Repr

/-- `nullSetup`: a null pointer has been followed. -/
inductive Found where
  | header (header : Option Nat)
  | nullSetup
deriving DecidableEq, Repr

section Find

variable (c : Configuration)

def matchesGeneric (setup : SetupPacket) (header : Nat) : Bool :=
  c.byte (header + 4) = setup.bmRequestType ∧ c.byte (header + 5) = setup.bRequest ∧
    c.word (header + 6) = setup.wValue.toNat ∧ c.word (header + 8) = setup.wIndex.toNat

/-- The loop over the records -/
def findStep (marker : UInt8) (setup : Option SetupPacket) (header : Nat) : Except Found Nat :=
  let next := header + c.word (header + 2)
  let headerMarker := c.byte header
  if headerMarker = USB_DEVICE_DESCRIPTOR_MARKER ∨
      headerMarker = USB_CONFIGURATION_DESCRIPTOR_MARKER then
    if headerMarker = marker then .error (.header (some header)) else .ok next
  else if headerMarker = USB_STRING_DESCRIPTOR_MARKER then
    if headerMarker = marker then
      match setup with
      | none => .error .nullSetup
      | some setup =>
          if c.byte (header + 1) = setup.wValue.toUInt8 then .error (.header (some header))
          else .ok next
    else .ok next
  else if headerMarker = USB_GENERIC_DESCRIPTOR_MARKER then
    match setup with
    | none => .error .nullSetup
    | some setup =>
        -- whatever marker is looked for
        if matchesGeneric c setup header then .error (.header (some header)) else .ok next
  else .error (.header none)

def usbFindRecord (fuel : Nat) (marker : UInt8) (setup : Option SetupPacket) : Option Found :=
  loop (findStep c marker setup) fuel 0

end Find

/-! ### `USB_NextEndpoint` -/

/-- The answer of `USB_NextEndpoint`, with `ep` and `itfc` where it is TRUE -/
inductive NextReply where
  | found (ep : Nat) (itfc : Option Nat)
  | none
  | nullSetup
deriving DecidableEq, Repr

section Next

variable (c : Configuration)

/-- The loop over the descriptors up to `last` -/
def nextStep (last : Nat) : Nat × Option Nat → Except NextReply (Nat × Option Nat)
  | (ep, itfc) =>
      if ep < last then
        let bLength := c.byte ep
        let bDescriptorType := c.byte (ep + 1)
        let next := ep + bLength.toNat
        if bDescriptorType = USB_INTERFACE_DESCRIPTOR_TYPE ∧ bLength = sizeofInterface then
          .ok (next, some ep)
        else if bDescriptorType = USB_ENDPOINT_DESCRIPTOR_TYPE ∧ bLength = sizeofEndpoint then
          .error (.found ep itfc)
        else .ok (next, itfc)
      else .error .none

/-- Where the search goes on; `none`: the pointers are bad. -/
def resume (first last : Nat) : Option Nat → Option Nat → Option (Nat × Option Nat)
  | none, _ => some (first, none)
  | some _, none => none
  | some ep, some itfc =>
      if ep > first ∧ ep < last ∧ itfc ≥ first ∧ itfc < last ∧
          c.byte (ep + 1) = USB_ENDPOINT_DESCRIPTOR_TYPE ∧ c.byte ep = sizeofEndpoint ∧
          c.byte (itfc + 1) = USB_INTERFACE_DESCRIPTOR_TYPE ∧ c.byte itfc = sizeofInterface then
        some (ep + sizeofEndpoint.toNat, some itfc)
      else none

def usbNextEndpoint (fuel : Nat) (ep itfc : Option Nat) : Option NextReply :=
  match usbFindRecord c fuel USB_CONFIGURATION_DESCRIPTOR_MARKER none with
  | none => none
  | some .nullSetup => some .nullSetup
  | some (.header none) => some .none
  | some (.header (some config)) =>
      let first := config + sizeofConfiguration
      let last := config + c.word (config + 2)
      match resume c first last ep itfc with
      | none => some .none
      | some start => loop (nextStep c last) fuel start

end Next

end TinyClr.UsbConfiguration
