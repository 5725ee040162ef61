import Mathlib.Tactic.SplitIfs
import TinyClr.Pal.UsbConfiguration

/-!
# When the check of a configuration ends

Every descriptor that the check comes to has to lie where it is looked at, class descriptors have to
have a length, and there has to be room for the number of every interface.  Then, and only then, the
check ends, and reads nothing but the records and its tables.
-/

namespace TinyClr.UsbConfiguration

open TinyClr.Library

/-! ### Reads -/

section Reads

variable (c : Configuration) {α : Type}

/-- A place in the record that ends at `last`, and in the configuration -/
def Inside (last p : Nat) : Prop := p < last ∧ p < c.length

/-- Fields in the order in which they are looked at, each with whether the next one is looked at
    too -/
def FieldsInside (last : Nat) : List (Nat × Prop) → Prop
  | [] => True
  | (p, goesOn) :: rest => Inside c last p ∧ (goesOn → FieldsInside last rest)

variable {c} {last p : Nat}

instance : Decidable (Inside c last p) := inferInstanceAs (Decidable (_ ∧ _))

theorem readByte_bind {f : UInt8 → Except Outcome α} : (c.readByte last p >>= f) =
    if Inside c last p then f (c.byte p) else .error .outside := by
  by_cases h : p < last ∧ p < c.length
  · rw [if_pos (show Inside c last p from h), Configuration.readByte, if_pos h]
    rfl
  · rw [if_neg (show ¬ Inside c last p from h), Configuration.readByte, if_neg h]
    rfl

theorem readWord_bind {f : Nat → Except Outcome α} : (c.readWord last p >>= f) =
    if Inside c last (p + 1) then f (c.word p) else .error .outside := by
  by_cases h : p + 1 < last ∧ p + 1 < c.length
  · rw [if_pos (show Inside c last (p + 1) from h), Configuration.readWord, if_pos h]
    rfl
  · rw [if_neg (show ¬ Inside c last (p + 1) from h), Configuration.readWord, if_neg h]
    rfl

theorem readByte_bind_outside {f : UInt8 → Except Outcome α} :
    (c.readByte last p >>= f) = .error .outside ↔
      (Inside c last p → f (c.byte p) = .error .outside) := by
  rw [readByte_bind]
  by_cases h : Inside c last p
  · rw [if_pos h]
    exact ⟨fun hf _ => hf, fun hf => hf h⟩
  · rw [if_neg h]
    exact ⟨fun _ hp => absurd hp h, fun _ => rfl⟩

theorem readWord_bind_outside {f : Nat → Except Outcome α} :
    (c.readWord last p >>= f) = .error .outside ↔
      (Inside c last (p + 1) → f (c.word p) = .error .outside) := by
  rw [readWord_bind]
  by_cases h : Inside c last (p + 1)
  · rw [if_pos h]
    exact ⟨fun hf _ => hf, fun hf => hf h⟩
  · rw [if_neg h]
    exact ⟨fun _ hp => absurd hp h, fun _ => rfl⟩

theorem fail_ne_outside {e : ConfigurationError} : fail e ≠ .error .outside := by simp [fail]

theorem ite_fail_outside {P : Prop} [Decidable P] {e : ConfigurationError} {x : Step} :
    (if P then fail e else x) = .error .outside ↔ ¬ P ∧ x = .error .outside := by
  by_cases h : P
  · rw [if_pos h]
    exact ⟨fun hf => absurd hf fail_ne_outside, fun hf => absurd h hf.1⟩
  · rw [if_neg h]
    exact ⟨fun hf => ⟨h, hf⟩, fun hf => hf.2⟩

theorem ok_ne_outside {t : Check} : (.ok t : Step) ≠ .error .outside := by simp

end Reads

/-! ### Where the check has to come to -/

section Fits

variable (c : Configuration)

def DeviceFits (record size : Nat) : Prop :=
  FieldsInside c (record + size)
    [(record + 4, c.byte (record + 4) = USB_DEVICE_DESCRIPTOR_LENGTH),
      (record + 5, c.byte (record + 5) = USB_DEVICE_DESCRIPTOR_TYPE),
      (record + 11, c.byte (record + 11) = 8 ∨ c.byte (record + 11) = 16 ∨
        c.byte (record + 11) = 32 ∨ c.byte (record + 11) = 64),
      (record + 21, False)]

def ConfigurationFits (record size : Nat) : Prop :=
  FieldsInside c (record + size)
    [(record + 4, c.byte (record + 4) = USB_CONFIGURATION_DESCRIPTOR_LENGTH),
      (record + 7, size = c.word (record + 6) + sizeofHeader),
      (record + 5, c.byte (record + 5) = USB_CONFIGURATION_DESCRIPTOR_TYPE),
      (record + 8, c.byte (record + 8) ≠ 0),
      (record + 9, ¬ c.byte (record + 9) > 1),
      (record + 11, False)]

def StringFits (record size : Nat) : Prop :=
  FieldsInside c (record + size)
    [(record + 4, size = (c.byte (record + 4)).toNat + sizeofHeader), (record + 5, False)]

def GenericFits (record size : Nat) : Prop := FieldsInside c (record + size) [(record + 4, False)]

/-- The record lies in the configuration, and is long enough for the fields of its kind that are
    looked at. -/
def RecordFits (record : Nat) (foundDevice foundConfig : Bool) : Prop :=
  Inside c (record + sizeofHeader) (record + 3) ∧
  (c.byte record = USB_DEVICE_DESCRIPTOR_MARKER → foundDevice = false →
    c.word (record + 2) = sizeofDevice → DeviceFits c record (c.word (record + 2))) ∧
  (c.byte record = USB_CONFIGURATION_DESCRIPTOR_MARKER → foundConfig = false →
    ConfigurationFits c record (c.word (record + 2))) ∧
  (c.byte record = USB_STRING_DESCRIPTOR_MARKER → StringFits c record (c.word (record + 2))) ∧
  (c.byte record = USB_GENERIC_DESCRIPTOR_MARKER → GenericFits c record (c.word (record + 2)))

/-- The interface descriptor lies in the record, and the table has its number or a free entry. -/
def InterfaceFits (frame : Frame) (interface : Nat) : Prop :=
  FieldsInside c frame.next
    [(interface + 1, c.byte (interface + 1) = USB_INTERFACE_DESCRIPTOR_TYPE),
      (interface, c.byte interface = sizeofInterface),
      (interface + 3, c.byte (interface + 3) = 0),
      (interface + 4, c.byte (interface + 4) ≠ 0),
      (interface + 2, False)] ∧
  (c.byte (interface + 1) = USB_INTERFACE_DESCRIPTOR_TYPE → c.byte interface = sizeofInterface →
    c.byte (interface + 3) = 0 → c.byte (interface + 4) ≠ 0 →
    c.byte (interface + 2) ∈ frame.itfcUsed ∨ 0xFF ∈ frame.itfcUsed)

/-- The class descriptor lies in the record and has a length. -/
def ClassFits (frame : Frame) (endpoint : Nat) : Prop :=
  FieldsInside c frame.next
    [(endpoint + 1, c.byte (endpoint + 1) ≠ USB_ENDPOINT_DESCRIPTOR_TYPE), (endpoint, False)] ∧
  (c.byte (endpoint + 1) ≠ USB_ENDPOINT_DESCRIPTOR_TYPE → c.byte endpoint ≠ 0)

def EndpointFits (frame : Frame) (endpoint : Nat) : Prop :=
  FieldsInside c frame.next
    [(endpoint + 1, c.byte (endpoint + 1) = USB_ENDPOINT_DESCRIPTOR_TYPE),
      (endpoint, c.byte endpoint = sizeofEndpoint),
      (endpoint + 2, 1 ≤ (c.byte (endpoint + 2) &&& 0x7F).toNat ∧
        (c.byte (endpoint + 2) &&& 0x7F).toNat ≤ 31),
      (endpoint + 3, False)]

/-- What the check comes to is as it should be. -/
def Fits : Check → Prop
  | .records record foundDevice foundConfig => RecordFits c record foundDevice foundConfig
  | .interfaces frame interface => frame.nInterfaces ≠ 0 → InterfaceFits c frame interface
  | .classes frame _ _ endpoint => ClassFits c frame endpoint
  | .endpoints frame _ nEndpoints endpoint => nEndpoints ≠ 0 → EndpointFits c frame endpoint

end Fits

section Outside

variable {c : Configuration} {record size interface endpoint : Nat}
  {foundDevice foundConfig : Bool} {frame : Frame}

theorem checkDevice_outside :
    checkDevice c record size foundDevice foundConfig = .error .outside ↔
      foundDevice = false ∧ size = sizeofDevice ∧ ¬ DeviceFits c record size := by
  simp only [checkDevice, DeviceFits, FieldsInside, ite_fail_outside, readByte_bind_outside,
    ok_ne_outside]
  grind

theorem checkConfiguration_outside :
    checkConfiguration c record size foundDevice foundConfig = .error .outside ↔
      foundConfig = false ∧ ¬ ConfigurationFits c record size := by
  simp only [checkConfiguration, ConfigurationFits, FieldsInside, ite_fail_outside,
    readByte_bind_outside, readWord_bind_outside, ok_ne_outside]
  grind

theorem checkString_outside :
    checkString c record size foundDevice foundConfig = .error .outside ↔
      ¬ StringFits c record size := by
  simp only [checkString, StringFits, FieldsInside, ite_fail_outside, readByte_bind_outside,
    ok_ne_outside]
  grind

theorem checkGeneric_outside :
    checkGeneric c record size foundDevice foundConfig = .error .outside ↔
      ¬ GenericFits c record size := by
  simp only [checkGeneric, GenericFits, FieldsInside, ite_fail_outside, readByte_bind_outside,
    ok_ne_outside]
  grind

theorem ite_outside {P : Prop} [Decidable P] {x y : Step} :
    (if P then x else y) = .error .outside ↔
      (P → x = .error .outside) ∧ (¬ P → y = .error .outside) := by
  by_cases h : P
  · simp [h]
  · simp [h]

theorem checkRecord_outside :
    checkRecord c record foundDevice foundConfig = .error .outside ↔
      ¬ RecordFits c record foundDevice foundConfig := by
  have hread : Inside c (record + sizeofHeader) (record + 3) →
      Inside c (record + sizeofHeader) record := fun h => ⟨by unfold sizeofHeader; omega, by
    have := h.2
    omega⟩
  have hmarkers : USB_DEVICE_DESCRIPTOR_MARKER ≠ USB_END_DESCRIPTOR_MARKER ∧
      USB_CONFIGURATION_DESCRIPTOR_MARKER ≠ USB_END_DESCRIPTOR_MARKER ∧
      USB_STRING_DESCRIPTOR_MARKER ≠ USB_END_DESCRIPTOR_MARKER ∧
      USB_GENERIC_DESCRIPTOR_MARKER ≠ USB_END_DESCRIPTOR_MARKER ∧
      USB_CONFIGURATION_DESCRIPTOR_MARKER ≠ USB_DEVICE_DESCRIPTOR_MARKER ∧
      USB_STRING_DESCRIPTOR_MARKER ≠ USB_DEVICE_DESCRIPTOR_MARKER ∧
      USB_GENERIC_DESCRIPTOR_MARKER ≠ USB_DEVICE_DESCRIPTOR_MARKER ∧
      USB_STRING_DESCRIPTOR_MARKER ≠ USB_CONFIGURATION_DESCRIPTOR_MARKER ∧
      USB_GENERIC_DESCRIPTOR_MARKER ≠ USB_CONFIGURATION_DESCRIPTOR_MARKER ∧
      USB_GENERIC_DESCRIPTOR_MARKER ≠ USB_STRING_DESCRIPTOR_MARKER := by decide
  simp only [checkRecord, readByte_bind_outside, readWord_bind_outside, ite_outside,
    fail_ne_outside, checkDevice_outside, checkConfiguration_outside, checkString_outside,
    checkGeneric_outside, RecordFits]
  grind

theorem bind_next_outside {found : Except Outcome (Nat × Bool)} :
    (do
      let (i, found) ← found
      return (i + 1, found) : Except Outcome (Nat × Bool)) = .error .outside ↔
        found = .error .outside := by
  rcases found with o | ⟨i, found⟩
  · simp [bind, Except.bind]
  · simp [bind, Except.bind, pure, Except.pure]

theorem seekItfc_outside {number : UInt8} {table : List UInt8} :
    seekItfc number table = .error .outside ↔ ¬ (number ∈ table ∨ 0xFF ∈ table) := by
  induction table with
  | nil => simp [seekItfc]
  | cons used rest ih =>
    unfold seekItfc
    by_cases hfree : used = 0xFF
    · simp [hfree]
    · rw [if_neg hfree]
      by_cases hsame : used = number
      · simp [hsame]
      · rw [if_neg hsame, bind_next_outside, ih, List.mem_cons, List.mem_cons,
          or_iff_right (Ne.symm hsame), or_iff_right (Ne.symm hfree)]

theorem checkInterface_outside :
    checkInterface c frame interface = .error .outside ↔
      frame.nInterfaces ≠ 0 ∧ ¬ InterfaceFits c frame interface := by
  rcases hn : frame.nInterfaces with _ | nInterfaces
  · simp only [checkInterface, hn, ite_outside, fail_ne_outside, ok_ne_outside]
    grind
  · have hseek : ∀ f : Nat × Bool → Step, (∀ x, f x ≠ .error .outside) →
        ((seekItfc (c.byte (interface + 2)) frame.itfcUsed >>= f) = .error .outside ↔
          ¬ (c.byte (interface + 2) ∈ frame.itfcUsed ∨ 0xFF ∈ frame.itfcUsed)) := by
      intro f hf
      rw [← seekItfc_outside]
      rcases seekItfc (c.byte (interface + 2)) frame.itfcUsed with o | x
      · simp [bind, Except.bind]
      · simpa [bind, Except.bind] using hf x
    simp only [checkInterface, hn, readByte_bind_outside, ite_outside, fail_ne_outside,
      InterfaceFits, FieldsInside]
    rw [hseek]
    · grind
    · intro x
      simp only [ne_eq, ite_outside, fail_ne_outside, ok_ne_outside]
      grind

theorem checkClass_outside {recordError : ConfigurationError} {nEndpoints : Nat} :
    checkClass c frame recordError nEndpoints endpoint = .error .outside ↔
      ¬ FieldsInside c frame.next
        [(endpoint + 1, c.byte (endpoint + 1) ≠ USB_ENDPOINT_DESCRIPTOR_TYPE),
          (endpoint, False)] := by
  simp only [checkClass, FieldsInside, readByte_bind_outside, ite_outside, ok_ne_outside]
  grind

theorem checkEndpoint_outside {recordError : ConfigurationError} {nEndpoints : Nat} :
    checkEndpoint c frame recordError nEndpoints endpoint = .error .outside ↔
      nEndpoints ≠ 0 ∧ ¬ EndpointFits c frame endpoint := by
  cases nEndpoints with
  | zero =>
    simp only [checkEndpoint, ite_fail_outside, ok_ne_outside]
    grind
  | succ nEndpoints =>
    simp only [checkEndpoint, EndpointFits, FieldsInside, readByte_bind_outside, ite_outside,
      fail_ne_outside, ok_ne_outside]
    generalize (c.byte (endpoint + 2) &&& 0x7F).toNat = number
    grind

end Outside

/-! ### What a step does -/

def Rejects (x : Step) : Prop := ∃ o, x = .error o ∧ o ≠ .returned .ok

def GoesOn (x : Step) (Q : Check → Prop) : Prop := Rejects x ∨ ∃ t, x = .ok t ∧ Q t

theorem rejects_fail {e : ConfigurationError} (h : e ≠ .ok) : Rejects (fail e) :=
  ⟨_, rfl, fun heq => h (Outcome.returned.inj heq)⟩

theorem rejects_outside : Rejects (.error .outside) := ⟨_, rfl, by decide⟩

namespace GoesOn

variable {c : Configuration} {last p : Nat} {Q : Check → Prop}

theorem ok {t : Check} (h : Q t) : GoesOn (.ok t) Q := Or.inr ⟨t, rfl, h⟩

theorem imp {x : Step} {Q' : Check → Prop} (h : GoesOn x Q) (hQ : ∀ t, Q t → Q' t) :
    GoesOn x Q' := h.imp_right fun ⟨t, hx, ht⟩ => ⟨t, hx, hQ t ht⟩

theorem byte {f : UInt8 → Step} (h : Inside c last p → GoesOn (f (c.byte p)) Q) :
    GoesOn (c.readByte last p >>= f) Q := by
  rw [readByte_bind]
  split
  · rename_i hinside
    exact h hinside
  · exact Or.inl rejects_outside

theorem word {f : Nat → Step} (h : Inside c last (p + 1) → GoesOn (f (c.word p)) Q) :
    GoesOn (c.readWord last p >>= f) Q := by
  rw [readWord_bind]
  split
  · rename_i hinside
    exact h hinside
  · exact Or.inl rejects_outside

theorem test {P : Prop} [Decidable P] {e : ConfigurationError} {x : Step} (he : e ≠ .ok)
    (h : ¬ P → GoesOn x Q) : GoesOn (if P then fail e else x) Q := by
  split
  · exact Or.inl (rejects_fail he)
  · rename_i hP
    exact h hP

theorem seek {number : UInt8} {table : List UInt8} {f : Nat × Bool → Step}
    (h : ∀ i found, GoesOn (f (i, found)) Q) : GoesOn (seekItfc number table >>= f) Q := by
  have herror : ∀ o, seekItfc number table = .error o → o = .outside := by
    induction table with
    | nil =>
      intro o ho
      exact (Except.error.inj ho).symm
    | cons used rest ih =>
      intro o ho
      unfold seekItfc at ho
      split at ho
      · exact absurd ho (by simp)
      · split at ho
        · exact absurd ho (by simp)
        · rcases hrest : seekItfc number rest with o' | x
          · rw [hrest] at ho
            obtain rfl := Except.error.inj ho
            exact ih _ hrest
          · rw [hrest] at ho
            exact absurd ho (by simp [bind, Except.bind, pure, Except.pure])
  rcases hseek : seekItfc number table with o | ⟨i, found⟩
  · rw [herror o hseek]
    exact Or.inl rejects_outside
  · exact h i found

end GoesOn

@[simp] theorem sizeofInterface_toNat : sizeofInterface.toNat = 9 := rfl

@[simp] theorem sizeofEndpoint_toNat : sizeofEndpoint.toNat = 7 := rfl

def sizeOf (c : Configuration) (record : Nat) : Nat := c.word (record + 2)

def numberOf (c : Configuration) (endpoint : Nat) : Nat := (c.byte (endpoint + 2) &&& 0x7F).toNat

section GoesOn

variable {c : Configuration} {record size interface endpoint : Nat}
  {foundDevice foundConfig : Bool} {frame : Frame} {recordError : ConfigurationError}
  {nEndpoints : Nat}

theorem checkDevice_goesOn : GoesOn (checkDevice c record size foundDevice foundConfig) fun t =>
    0 < size ∧ t = .records (record + size) true foundConfig := by
  refine .test (by decide) fun _ => .test (by decide) fun hsize => .byte fun _ =>
    .test (by decide) fun _ => .byte fun _ => .test (by decide) fun _ => .byte fun _ =>
    .test (by decide) fun _ => .byte fun _ => .test (by decide) fun _ => .ok ⟨?_, rfl⟩
  rw [not_not.mp hsize]
  decide

theorem checkConfiguration_goesOn :
    GoesOn (checkConfiguration c record size foundDevice foundConfig) fun t =>
      foundConfig = false ∧ ∃ frame, frame.next = record + size ∧
        frame.foundDevice = foundDevice ∧ frame.epUsed = (fun _ => false) ∧
        t = .interfaces frame (record + sizeofConfiguration) :=
  .test (by decide) fun hfound => .byte fun _ => .test (by decide) fun _ => .word fun _ =>
    .test (by decide) fun _ => .byte fun _ => .test (by decide) fun _ => .byte fun _ =>
    .test (by decide) fun _ => .byte fun _ => .test (by decide) fun _ => .byte fun _ =>
    .test (by decide) fun _ => .ok ⟨by simpa using hfound, _, rfl, rfl, rfl, rfl⟩

theorem checkString_goesOn : GoesOn (checkString c record size foundDevice foundConfig) fun t =>
    0 < size ∧ t = .records (record + size) foundDevice foundConfig := by
  refine .byte fun hinside => .test (by decide) fun _ => .byte fun _ => .test (by decide) fun _ =>
    .ok ⟨?_, rfl⟩
  have := hinside.1
  omega

theorem checkGeneric_goesOn : GoesOn (checkGeneric c record size foundDevice foundConfig) fun t =>
    0 < size ∧ t = .records (record + size) foundDevice foundConfig := by
  refine .byte fun hinside => .test (by decide) fun _ => .ok ⟨?_, rfl⟩
  have := hinside.1
  omega

theorem checkRecord_goesOn (c : Configuration) (record : Nat) (foundDevice foundConfig : Bool) :
    (c.byte record = USB_END_DESCRIPTOR_MARKER ∧ foundDevice = true ∧ foundConfig = true ∧
      checkRecord c record foundDevice foundConfig = .error (.returned .ok)) ∨
    GoesOn (checkRecord c record foundDevice foundConfig) fun t =>
      (c.byte record = USB_DEVICE_DESCRIPTOR_MARKER ∧ 0 < sizeOf c record ∧
        t = .records (record + sizeOf c record) true foundConfig) ∨
      (c.byte record = USB_CONFIGURATION_DESCRIPTOR_MARKER ∧ foundConfig = false ∧
        ∃ frame, frame.next = record + sizeOf c record ∧ frame.foundDevice = foundDevice ∧
          frame.epUsed = (fun _ => false) ∧
          t = .interfaces frame (record + sizeofConfiguration)) ∨
      ((c.byte record = USB_STRING_DESCRIPTOR_MARKER ∨
        c.byte record = USB_GENERIC_DESCRIPTOR_MARKER) ∧ 0 < sizeOf c record ∧
        t = .records (record + sizeOf c record) foundDevice foundConfig) := by
  by_cases hend : c.byte record = USB_END_DESCRIPTOR_MARKER ∧ foundDevice = true ∧
      foundConfig = true ∧ Inside c (record + sizeofHeader) (record + 3)
  · obtain ⟨hmarker, hdevice, hconfig, hinside⟩ := hend
    refine Or.inl ⟨hmarker, hdevice, hconfig, ?_⟩
    have hinside₀ : Inside c (record + sizeofHeader) record := by
      have := hinside.2
      exact ⟨by unfold sizeofHeader; omega, by omega⟩
    unfold checkRecord
    rw [readWord_bind, if_pos hinside, readByte_bind, if_pos hinside₀, if_pos hmarker,
      if_pos ⟨hdevice, hconfig⟩]
    rfl
  · refine Or.inr (.word fun hinside => .byte fun _ => ?_)
    split
    · rename_i hmarker
      rw [if_neg fun h => hend ⟨hmarker, h.1, h.2, hinside⟩]
      exact Or.inl (rejects_fail (by decide))
    · split
      · rename_i hdevice
        exact checkDevice_goesOn.imp fun _ h => Or.inl ⟨hdevice, h⟩
      · split
        · rename_i hconfig
          exact checkConfiguration_goesOn.imp fun _ h => Or.inr (Or.inl ⟨hconfig, h⟩)
        · split
          · rename_i hstring
            exact checkString_goesOn.imp fun _ h => Or.inr (Or.inr ⟨Or.inl hstring, h⟩)
          · split
            · rename_i hgeneric
              exact checkGeneric_goesOn.imp fun _ h => Or.inr (Or.inr ⟨Or.inr hgeneric, h⟩)
            · exact Or.inl (rejects_fail (by decide))

theorem checkInterface_goesOn : GoesOn (checkInterface c frame interface) fun t =>
    (frame.nInterfaces = 0 ∧ interface = frame.next ∧
      t = .records frame.next frame.foundDevice true) ∨
    (frame.nInterfaces ≠ 0 ∧ c.byte (interface + 1) = USB_INTERFACE_DESCRIPTOR_TYPE ∧
      c.byte interface = sizeofInterface ∧ interface < frame.next ∧
      ∃ frame' recordError nEndpoints, frame'.next = frame.next ∧
        frame'.foundDevice = frame.foundDevice ∧ frame'.epUsed = frame.epUsed ∧
        t = .classes frame' recordError nEndpoints (interface + sizeofInterface.toNat)) := by
  unfold checkInterface
  split
  · rename_i hn
    split
    · rename_i hnext
      exact .ok (Or.inl ⟨hn, hnext, rfl⟩)
    · exact Or.inl (rejects_fail (by decide))
  · rename_i nInterfaces _
    refine .byte fun _ => .test (by decide) fun htype => .byte fun hinside =>
      .test (by decide) fun hlength => .byte fun _ => .test (by decide) fun _ => .byte fun _ =>
      .test (by decide) fun _ => .byte fun _ => ?_
    refine .seek fun i found => .test (by decide) fun _ => .ok (Or.inr ⟨by omega,
      not_not.mp htype, not_not.mp hlength, hinside.1, { frame with
        nInterfaces := nInterfaces
        itfcUsed := frame.itfcUsed.set i (c.byte (interface + 2)) }, _, _, rfl, rfl, rfl, rfl⟩)

theorem checkClass_goesOn : GoesOn (checkClass c frame recordError nEndpoints endpoint) fun t =>
    (c.byte (endpoint + 1) = USB_ENDPOINT_DESCRIPTOR_TYPE ∧
      t = .endpoints frame recordError nEndpoints endpoint) ∨
    (c.byte (endpoint + 1) ≠ USB_ENDPOINT_DESCRIPTOR_TYPE ∧ endpoint < frame.next ∧
      t = .classes frame recordError nEndpoints (endpoint + (c.byte endpoint).toNat)) := by
  refine .byte fun _ => ?_
  split
  · rename_i htype
    exact .ok (Or.inl ⟨htype, rfl⟩)
  · rename_i htype
    exact .byte fun hinside => .ok (Or.inr ⟨htype, hinside.1, rfl⟩)

theorem checkEndpoint_goesOn :
    GoesOn (checkEndpoint c frame recordError nEndpoints endpoint) fun t =>
      (nEndpoints = 0 ∧ t = .interfaces frame endpoint) ∨
      (nEndpoints ≠ 0 ∧ c.byte (endpoint + 1) = USB_ENDPOINT_DESCRIPTOR_TYPE ∧
        c.byte endpoint = sizeofEndpoint ∧ endpoint < frame.next ∧ 1 ≤ numberOf c endpoint ∧
        frame.epUsed (numberOf c endpoint - 1) = false ∧
        ∃ frame' nEndpoints', frame'.next = frame.next ∧ frame'.foundDevice = frame.foundDevice ∧
          (∀ i, frame'.epUsed i = true ↔ i = numberOf c endpoint - 1 ∨ frame.epUsed i = true) ∧
          t = .endpoints frame' recordError nEndpoints' (endpoint + sizeofEndpoint.toNat)) := by
  unfold checkEndpoint
  split
  · split
    · rename_i herror
      exact Or.inl (rejects_fail herror)
    · exact .ok (Or.inl ⟨rfl, rfl⟩)
  · refine .byte fun _ => .test (by decide) fun htype => .byte fun hinside =>
      .test (by decide) fun hlength => .byte fun _ => .test (by decide) fun hrange =>
      .byte fun _ => .test (by decide) fun _ => ?_
    split
    · exact Or.inl rejects_outside
    · refine .test (by decide) fun hfree => .ok (Or.inr ⟨by omega, not_not.mp htype,
        not_not.mp hlength, hinside.1, ?_, eq_false_of_ne_true hfree,
        { frame with epUsed := fun i => if i = numberOf c endpoint - 1 then true else
          frame.epUsed i }, _, rfl, rfl, fun i => ?_, rfl⟩)
      · have hnumber : numberOf c endpoint = (c.byte (endpoint + 2) &&& 0x7F).toNat := rfl
        omega
      · show (if i = numberOf c endpoint - 1 then true else frame.epUsed i) = true ↔ _
        split <;> simp [*]

end GoesOn

/-! ### The end of the check -/

/-- How much of the configuration lies ahead; at one place the loops come in this order. -/
def ahead (c : Configuration) : Check → Nat
  | .records record _ _ => 4 * (c.length - record)
  | .interfaces _ interface => 4 * (c.length - interface) + 1
  | .endpoints _ _ _ endpoint => 4 * (c.length - endpoint) + 2
  | .classes _ _ _ endpoint => 4 * (c.length - endpoint) + 3

theorem GoesOn.ahead_lt {c : Configuration} {t t' : Check} {Q : Check → Prop}
    (h : GoesOn (checkStep c t) Q) (hstep : checkStep c t = .ok t')
    (hQ : ∀ t', Q t' → ahead c t' < ahead c t) : ahead c t' < ahead c t := by
  rcases h with ⟨o, herror, -⟩ | ⟨t'', hok, hq⟩
  · exact absurd (herror.symm.trans hstep) (by simp)
  · obtain rfl := Except.ok.inj (hok.symm.trans hstep)
    exact hQ _ hq

theorem Fits.step {c : Configuration} {t : Check} (h : Fits c t) :
    checkStep c t ≠ .error .outside ∧ ∀ t', checkStep c t = .ok t' → ahead c t' < ahead c t := by
  cases t with
  | records record foundDevice foundConfig =>
    refine ⟨fun houtside => checkRecord_outside.mp houtside h, fun t' hstep => ?_⟩
    have hinside : record + 3 < c.length := h.1.2
    rcases checkRecord_goesOn c record foundDevice foundConfig with ⟨-, -, -, hend⟩ | hgoes
    · exact absurd (hend.symm.trans hstep) (by simp)
    · refine GoesOn.ahead_lt hgoes hstep ?_
      rintro t' (⟨-, hsize, rfl⟩ | ⟨-, -, frame, -, -, -, rfl⟩ | ⟨-, hsize, rfl⟩)
      · simp only [ahead]
        omega
      · simp only [ahead, sizeofConfiguration]
        omega
      · simp only [ahead]
        omega
  | interfaces frame interface =>
    refine ⟨fun houtside => ?_, fun t' hstep => GoesOn.ahead_lt checkInterface_goesOn hstep ?_⟩
    · obtain ⟨hn, hnot⟩ := checkInterface_outside.mp houtside
      exact hnot (h hn)
    · rintro t' (⟨-, hnext, rfl⟩ | ⟨hn, -, -, -, frame', recordError, nEndpoints, -, -, -, rfl⟩)
      · simp only [ahead]
        omega
      · have hinside : interface + 1 < c.length := (h hn).1.1.2
        simp only [ahead, sizeofInterface_toNat]
        omega
  | classes frame recordError nEndpoints endpoint =>
    refine ⟨fun houtside => checkClass_outside.mp houtside h.1,
      fun t' hstep => GoesOn.ahead_lt checkClass_goesOn hstep ?_⟩
    have hinside : endpoint + 1 < c.length := h.1.1.2
    rintro t' (⟨-, rfl⟩ | ⟨htype, -, rfl⟩)
    · simp only [ahead]
      omega
    · have hlength : (c.byte endpoint).toNat ≠ 0 := fun heq => h.2 htype (UInt8.toNat_inj.mp heq)
      simp only [ahead]
      omega
  | endpoints frame recordError nEndpoints endpoint =>
    refine ⟨fun houtside => ?_, fun t' hstep => GoesOn.ahead_lt checkEndpoint_goesOn hstep ?_⟩
    · obtain ⟨hn, hnot⟩ := checkEndpoint_outside.mp houtside
      exact hnot (h hn)
    · rintro t' (⟨-, rfl⟩ | ⟨hn, -, -, -, -, -, frame', nEndpoints', -, -, -, rfl⟩)
      · simp only [ahead]
        omega
      · have hinside : endpoint + 1 < c.length := (h hn).1.2
        simp only [ahead, sizeofEndpoint_toNat]
        omega

theorem step_of_not_fits {c : Configuration} {t : Check} (h : ¬ Fits c t) :
    checkStep c t = .error .outside ∨ checkStep c t = .ok t := by
  cases t with
  | records record foundDevice foundConfig => exact Or.inl (checkRecord_outside.mpr h)
  | interfaces frame interface => exact Or.inl (checkInterface_outside.mpr (Classical.not_imp.mp h))
  | classes frame recordError nEndpoints endpoint =>
    by_cases hfields : FieldsInside c frame.next
        [(endpoint + 1, c.byte (endpoint + 1) ≠ USB_ENDPOINT_DESCRIPTOR_TYPE), (endpoint, False)]
    · -- a class descriptor without a length
      obtain ⟨htype, hzero⟩ := Classical.not_imp.mp fun hlength => h ⟨hfields, hlength⟩
      refine Or.inr ?_
      rw [checkStep, checkClass, readByte_bind, if_pos hfields.1, if_neg htype, readByte_bind,
        if_pos (hfields.2 htype).1, not_not.mp hzero]
      rfl
    · exact Or.inl (checkClass_outside.mpr hfields)
  | endpoints frame recordError nEndpoints endpoint =>
    exact Or.inl (checkEndpoint_outside.mpr (Classical.not_imp.mp h))

/-- **The check** ends without a read outside exactly when it only comes to descriptors that fit. -/
theorem check_ends_iff (c : Configuration) :
    (∃ o, o ≠ .outside ∧ Ends (checkStep c) (.records 0 false false) o) ↔
      ∀ t, Reaches (checkStep c) (.records 0 false false) t → Fits c t :=
  ends_iff_reaches_good (fun _ h => h.step) fun _ h => step_of_not_fits h

end TinyClr.UsbConfiguration
