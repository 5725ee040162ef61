import Mathlib.Logic.Function.Basic

/-!
# Firmware updates

The calls of `DeviceCode/pal/MFUpdate/MFUpdate.cpp` that lead from a provider's name to an installed
update.

`W` is the world that the providers act on.  Their functions see the record of an update and do not
write to it.  A call that follows a null pointer has no result.  `History` is not in the source: what
has happened to the updates, the newest event first.
-/

namespace TinyClr.MFUpdate

/-! ### Data -/

structure MFVersion where
  usMajor : Nat
  usMinor : Nat
  usBuild : Nat
  usRevision : Nat
deriving DecidableEq, Repr

structure Header where
  updateID : Int
  version : MFVersion
  updateType : Nat
  updateSubType : Nat
  updateSize : Nat
  packetSize : Nat
deriving DecidableEq, Repr

/-- The bits of `MFUpdate::Flags` -/
structure Flags where
  inUse : Bool
  backupRequired : Bool
  authenticated : Bool
  validated : Bool
deriving DecidableEq, Repr

/-- `MFUpdate`; `providers` is the place of the package in `g_UpdatePackages`, if any. -/
structure Update where
  header : Header
  storageHandle : Int
  flags : Flags
  providers : Option Nat
deriving DecidableEq, Repr

def MFUPDATE_UPDATEID_ANY : Int := 0xFFFFFFFF

/-- A record that `memset` has cleared -/
def Update.zero : Update where
  header := ⟨0, ⟨0, 0, 0, 0⟩, 0, 0, 0, 0⟩
  storageHandle := 0
  flags := ⟨false, false, false, false⟩
  providers := none

abbrev Data := List UInt8

/-! ### Providers -/

variable {W : Type}

structure UpdateProvider (W : Type) where
  initializeUpdate : Option (Update → W → Bool × W)
  installUpdate : Option (Update → Data → W → Bool × W)

structure ValidationProvider (W : Type) where
  authCommand : Option (Update → Nat → Data → W → (Bool × Data) × W)
  authenticate : Option (Update → Data → W → Bool × W)
  validatePacket : Option (Update → Data → Data → W → Bool × W)
  validateUpdate : Option (Update → Data → W → Bool × W)

structure StorageProvider (W : Type) where
  create : Option (Header → Flags → W → Int × W)
  openUpdate : Option (Int → Nat → Nat → W → Int × W)
  close : Option (Int → W → W)
  delete : Option (Int → Nat → Nat → W → Bool × W)
  write : Option (Int → Int → Data → W → Int × W)
  getHeader : Option (Int → W → (Bool × Header) × W)

structure Package (W : Type) where
  providerName : Option Data
  update : Option (UpdateProvider W)
  validation : Option (ValidationProvider W)
  storage : Option (StorageProvider W)

/-! ### State -/

/-- What happens to the update of a handle: it is set up, authenticated, written to, validated (with
    the answer of its provider) and installed (with whether its provider can validate). -/
inductive Mark where
  | set (handle : Nat)
  | authenticated (handle : Nat) (ok : Bool)
  | wrote (handle : Nat)
  | validated (handle : Nat) (ok : Bool)
  | installed (handle : Nat) (validates : Bool)
deriving DecidableEq, Repr

abbrev History := List Mark

/-- `updates` are the records from `s_Updates` on: four slots, and what lies behind them. -/
structure System (W : Type) where
  updates : Nat → Update
  updatesInitialized : Bool
  world : W
  history : History

/-- `ARRAYSIZE(s_Updates)` -/
def arraySize : Nat := 4

inductive Reply where
  | handle (value : Int)
  | bool (value : Bool)
  | response (value : Bool) (pResponse : Data)
deriving DecidableEq, Repr

namespace System

def set (s : System W) (handle : Nat) (update : Update) : System W :=
  { s with updates := Function.update s.updates handle update }

def mark (s : System W) (event : Mark) : System W := { s with history := event :: s.history }

def initializeUpdates (s : System W) : System W :=
  if s.updatesInitialized then s
  else
    { s with
      updates := fun i => if i < arraySize then Update.zero else s.updates i
      updatesInitialized := true }

def releaseUpdateHandle (s : System W) (handle : Int) : System W :=
  if handle < 0 ∨ handle > arraySize then s else s.set handle.toNat Update.zero

def getUpdate (s : System W) (handle : Int) : Option (Nat × Update) :=
  if handle < 0 ∨ handle > arraySize then none
  else if (s.updates handle.toNat).flags.inUse then some (handle.toNat, s.updates handle.toNat)
  else none

end System

/-- `c` of `hal_stricmp`: capital letters of ASCII made small -/
def lower (c : UInt8) : Int := if 0x41 ≤ c ∧ c ≤ 0x5A then c.toNat + 32 else c.toNat

/-- `hal_stricmp` (`DeviceCode/pal/tinycrt/tinycrt.cpp`), on strings without their final zero -/
def hal_stricmp : Data → Data → Int
  | f :: dst, l :: src => if lower f = lower l then hal_stricmp dst src else lower f - lower l
  | f :: _, [] => lower f
  | [], l :: _ => -lower l
  | [], [] => 0

section Calls

variable (packages : List (Package W))

def providersOf (update : Update) : Option (Package W) :=
  match update.providers with
  | some i => packages[i]?
  | none => none

def getProviderByName (szProvider : Data) : Option Nat :=
  packages.findIdx? fun package =>
    match package.providerName with
    | some name => hal_stricmp szProvider name = 0
    | none => false

/-- Whether the slot in use is given up for a new update of the kind of `hdr` -/
def isStale (s : System W) (i : Nat) (hdr : Header) : Option (Bool × W) :=
  let update := s.updates i
  if hdr.updateType = update.header.updateType ∧ hdr.updateSubType = update.header.updateSubType then
    some (true, s.world)
  else
    match providersOf packages update with
    | none => none
    | some package =>
        match package.storage with
        | none => some (true, s.world)
        | some storage =>
            match storage.getHeader with
            | none => none
            | some getHeader =>
                let ((found, _), world) := getHeader update.storageHandle s.world
                some (!found, world)

/-- `GetNewUpdateHandle`, from slot `i` on with `n` slots to go; -1 is `none`. -/
def getNewUpdateHandle (hdr : Header) : Nat → Nat → System W → Option (System W × Option Nat)
  | 0, _, s => some (s, none)
  | n + 1, i, s =>
      let released : Option (System W) :=
        if (s.updates i).flags.inUse then
          match isStale packages s i hdr with
          | none => none
          | some (stale, world) =>
              let s := { s with world := world }
              some (if stale then s.releaseUpdateHandle i else s)
        else some s
      match released with
      | none => none
      | some s =>
          let update := s.updates i
          if !update.flags.inUse then
            some (s.set i { update with flags := { update.flags with inUse := true } }, some i)
          else getNewUpdateHandle hdr n (i + 1) s

def initUpdate (s : System W) (szProvider : Data) (update : Header) : Option (System W × Reply) :=
  let s := s.initializeUpdates
  match getProviderByName packages szProvider with
  | none => some (s, .handle (-1))
  | some providers =>
      match getNewUpdateHandle packages update arraySize 0 s with
      | none => none
      | some (s, none) => some (s, .handle (-1))
      | some (s, some handle) =>
          let pUpdate := { s.updates handle with header := update, providers := some providers }
          let s := (s.set handle pUpdate).mark (.set handle)
          match packages[providers]? with
          | none => none
          | some package =>
              match package.update with
              | none => none
              | some provider =>
                  match provider.initializeUpdate with
                  | none => some (s, .handle handle)
                  | some initializeUpdate =>
                      let (ok, world) := initializeUpdate pUpdate s.world
                      let s := { s with world := world }
                      if ok then some (s, .handle handle)
                      else some (s.releaseUpdateHandle handle, .handle (-1))

def authCommand (s : System W) (updateHandle : Int) (cmd : Nat) (pArgs : Data) :
    Option (System W × Reply) :=
  match s.getUpdate updateHandle with
  | none => some (s, .response false [])
  | some (_, update) =>
      match providersOf packages update with
      | none => none
      | some package =>
          match package.validation with
          | none => some (s, .response false [])
          | some valid =>
              match valid.authCommand with
              | none => some (s, .response false [])
              | some authCommand =>
                  let ((ok, pResponse), world) := authCommand update cmd pArgs s.world
                  some ({ s with world := world }, .response ok pResponse)

def authenticate (s : System W) (updateHandle : Int) (pAuthData : Data) :
    Option (System W × Reply) :=
  match s.getUpdate updateHandle with
  | none => some (s, .bool false)
  | some (handle, update) =>
      match providersOf packages update with
      | none => none
      | some package =>
          match package.validation with
          | none => some (s, .bool false)
          | some valid =>
              match valid.authenticate with
              | none => some (s, .bool true)
              | some authenticate =>
                  let (fRet, world) := authenticate update pAuthData s.world
                  let s := { s with world := world }
                  let flags := { update.flags with authenticated := fRet }
                  some ((s.set handle { update with flags := flags }).mark
                    (.authenticated handle fRet), .bool fRet)

def openUpdate (s : System W) (updateHandle : Int) : Option (System W × Reply) :=
  match s.getUpdate updateHandle with
  | none => some (s, .bool false)
  | some (handle, update) =>
      match providersOf packages update with
      | none => none
      | some package =>
          if package.update.isNone then some (s, .bool false)
          else if !update.flags.authenticated then some (s, .bool false)
          else
            match package.storage with
            | none => some (s, .bool false)
            | some storage =>
                match storage.openUpdate with
                | none => none
                | some openUpdate =>
                    let (storageHandle, world) := openUpdate MFUPDATE_UPDATEID_ANY
                      update.header.updateType update.header.updateSubType s.world
                    let update := { update with storageHandle := storageHandle }
                    let s := { s with world := world }.set handle update
                    if storageHandle = -1 then some (s, .bool false)
                    else
                      match storage.getHeader with
                      | none => none
                      | some getHeader =>
                          let ((_, header), world) := getHeader storageHandle s.world
                          let s := { s with world := world }
                          if header.updateID ≠ update.header.updateID ∨
                              header.version ≠ update.header.version then
                            match storage.delete with
                            | none => none
                            | some delete =>
                                let (_, world) := delete header.updateID header.updateType
                                  header.updateSubType s.world
                                some ({ s with world := world }, .bool false)
                          else some (s.set handle { update with header := header }, .bool true)

def create (s : System W) (updateHandle : Int) : Option (System W × Reply) :=
  match s.getUpdate updateHandle with
  | none => some (s, .bool false)
  | some (handle, update) =>
      match providersOf packages update with
      | none => none
      | some package =>
          match package.update with
          | none => some (s, .bool false)
          | some provider =>
              if !update.flags.authenticated then some (s, .bool false)
              else
                match package.storage with
                | none => some (s, .bool false)
                | some storage =>
                    match provider.initializeUpdate with
                    | none => none
                    | some initializeUpdate =>
                        let (ok, world) := initializeUpdate update s.world
                        let s := { s with world := world }
                        if !ok then some (s.releaseUpdateHandle updateHandle, .bool false)
                        else
                          match storage.create with
                          | none => none
                          | some create =>
                              let (storageHandle, world) :=
                                create update.header update.flags s.world
                              let s := { s with world := world }.set handle
                                { update with storageHandle := storageHandle }
                              if storageHandle = -1 then
                                some (s.releaseUpdateHandle updateHandle, .bool false)
                              else some (s, .bool true)

/-- The check of a packet, if the package makes one; no validation data is the empty list. -/
def validatePacketOf (package : Package W) (update : Update) (packetData pValidationData : Data)
    (world : W) : Bool × W :=
  match package.validation with
  | none => (true, world)
  | some valid =>
      match valid.validatePacket with
      | none => (true, world)
      | some validatePacket =>
          if pValidationData = [] then (true, world)
          else validatePacket update packetData pValidationData world

def addPacket (s : System W) (updateHandle packetIndex : Int) (packetData pValidationData : Data) :
    Option (System W × Reply) :=
  match s.getUpdate updateHandle with
  | none => some (s, .bool false)
  | some (handle, update) =>
      match providersOf packages update with
      | none => none
      | some package =>
          match package.storage with
          | none => some (s, .bool false)
          | some storage =>
              if !update.flags.authenticated then some (s, .bool false)
              else
                let (ok, world) :=
                  validatePacketOf package update packetData pValidationData s.world
                let s := { s with world := world }
                if !ok then some (s, .bool false)
                else
                  match storage.write with
                  | none => none
                  | some write =>
                      let (written, world) := write update.storageHandle
                        (packetIndex * update.header.packetSize) packetData s.world
                      some ({ s with world := world }.mark (.wrote handle),
                        .bool (written = packetData.length))

def validateUpdateOf (package : Package W) : Option (Update → Data → W → Bool × W) :=
  match package.validation with
  | none => none
  | some valid => valid.validateUpdate

/-- The provider's answer goes into the flags; without `ValidateUpdate` there is nothing to ask. -/
def askProvider (package : Package W) (s : System W) (handle : Nat) (update : Update)
    (pValidationData : Data) : Bool × System W :=
  match validateUpdateOf package with
  | none => (true, s)
  | some validateUpdate =>
      let (fValid, world) := validateUpdate update pValidationData s.world
      let flags := { update.flags with validated := fValid }
      (fValid, ({ s with world := world }.set handle { update with flags := flags }).mark
        (.validated handle fValid))

def closeStorage (package : Package W) (s : System W) (update : Update) : System W :=
  match package.storage with
  | none => s
  | some storage =>
      match storage.close with
      | none => s
      | some close => { s with world := close update.storageHandle s.world }

def validate (s : System W) (updateHandle : Int) (pValidationData : Data) :
    Option (System W × Bool) :=
  match s.getUpdate updateHandle with
  | none => some (s, false)
  | some (handle, update) =>
      if !update.flags.authenticated then some (s, false)
      else if update.flags.validated then some (s, true)
      else
        match providersOf packages update with
        | none => none
        | some package =>
            let (fValid, s) := askProvider package s handle update pValidationData
            let s := closeStorage package s update
            -- set whatever the provider has answered
            let flags := { update.flags with validated := true }
            some (s.set handle { update with flags := flags }, fValid)

def install (s : System W) (updateHandle : Int) (pValidationData : Data) :
    Option (System W × Reply) :=
  match s.getUpdate updateHandle with
  | none => some (s, .bool false)
  | some (handle, update) =>
      if !update.flags.authenticated then some (s, .bool false)
      else
        let validated : Option (System W × Bool) :=
          if update.flags.validated then some (s, true)
          else validate packages s updateHandle pValidationData
        match validated with
        | none => none
        | some (s, false) => some (s, .bool false)
        | some (s, true) =>
            match providersOf packages (s.updates handle) with
            | none => none
            | some package =>
                match package.update with
                | none => none
                | some provider =>
                    match provider.installUpdate with
                    | none => none
                    | some installUpdate =>
                        let (ok, world) := installUpdate (s.updates handle) pValidationData s.world
                        some ({ s with world := world }.mark
                          (.installed handle (validateUpdateOf package).isSome), .bool ok)

/-- Without a `Delete` of the storage the answer is not set, and taken as FALSE. -/
def deleteFrom (storage : StorageProvider W) (update : Update) (world : W) : Bool × W :=
  match storage.delete with
  | none => (false, world)
  | some delete =>
      delete update.header.updateID update.header.updateType update.header.updateSubType world

def delete (s : System W) (updateHandle : Int) : Option (System W × Reply) :=
  match s.getUpdate updateHandle with
  | none => some (s, .bool false)
  | some (_, update) =>
      match providersOf packages update with
      | none => none
      | some package =>
          match package.storage with
          | none => some (s, .bool false)
          | some storage =>
              if !update.flags.authenticated then some (s, .bool false)
              else
                let (fRet, world) := deleteFrom storage update s.world
                some ({ s with world := world }.releaseUpdateHandle updateHandle, .bool fRet)

inductive Call where
  | initUpdate (szProvider : Data) (update : Header)
  | authCommand (updateHandle : Int) (cmd : Nat) (pArgs : Data)
  | authenticate (updateHandle : Int) (pAuthData : Data)
  | openUpdate (updateHandle : Int)
  | create (updateHandle : Int)
  | addPacket (updateHandle packetIndex : Int) (packetData pValidationData : Data)
  | validate (updateHandle : Int) (pValidationData : Data)
  | install (updateHandle : Int) (pValidationData : Data)
  | delete (updateHandle : Int)
deriving DecidableEq, Repr

def step (s : System W) : Call → Option (System W × Reply)
  | .initUpdate szProvider update => initUpdate packages s szProvider update
  | .authCommand updateHandle cmd pArgs => authCommand packages s updateHandle cmd pArgs
  | .authenticate updateHandle pAuthData => authenticate packages s updateHandle pAuthData
  | .openUpdate updateHandle => openUpdate packages s updateHandle
  | .create updateHandle => create packages s updateHandle
  | .addPacket updateHandle packetIndex packetData pValidationData =>
      addPacket packages s updateHandle packetIndex packetData pValidationData
  | .validate updateHandle pValidationData =>
      (validate packages s updateHandle pValidationData).map fun r => (r.1, .bool r.2)
  | .install updateHandle pValidationData => install packages s updateHandle pValidationData
  | .delete updateHandle => delete packages s updateHandle

end Calls

/-- The state after a reset: `s_Updates` is cleared, `behind` is what follows it. -/
def initial (behind : Update) (world : W) : System W where
  updates := fun i => if i < arraySize then Update.zero else behind
  updatesInitialized := false
  world := world
  history := []

end TinyClr.MFUpdate
