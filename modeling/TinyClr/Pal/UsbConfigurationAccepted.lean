import TinyClr.Library.Tiling
import TinyClr.Pal.UsbConfigurationSpec

/-!
# What an accepted configuration looks like

The records tile the configuration up to its end marker, and the descriptors tile the configuration
record: there is one configuration record, its first descriptor is an interface, and its endpoints
have the length of an endpoint and different numbers.
-/

namespace TinyClr.UsbConfiguration

open TinyClr.Library

variable (c : Configuration)

def Accepted : Prop := Ends (checkStep c) (.records 0 false false) (.returned .ok)

def lengthOf (descriptor : Nat) : Nat := (c.byte descriptor).toNat

def IsInterface (descriptor : Nat) : Prop :=
  c.byte (descriptor + 1) = USB_INTERFACE_DESCRIPTOR_TYPE ∧ c.byte descriptor = sizeofInterface

instance (descriptor : Nat) : Decidable (IsInterface c descriptor) :=
  inferInstanceAs (Decidable (_ ∧ _))

def IsEndpoint (descriptor : Nat) : Prop :=
  c.byte (descriptor + 1) = USB_ENDPOINT_DESCRIPTOR_TYPE

instance (descriptor : Nat) : Decidable (IsEndpoint c descriptor) :=
  inferInstanceAs (Decidable (_ = _))

/-- The descriptors `ds` from `first` up to `last`, where the endpoint numbers marked in `epUsed` are
    taken -/
structure Descriptors (first last : Nat) (epUsed : Nat → Bool) (ds : List Nat) : Prop where
  tiles : Tiles (lengthOf c) first ds last
  length : ∀ d ∈ ds, IsEndpoint c d → c.byte d = sizeofEndpoint
  positive : ∀ d ∈ ds, IsEndpoint c d → 1 ≤ numberOf c d
  free : ∀ d ∈ ds, IsEndpoint c d → epUsed (numberOf c d - 1) = false
  distinct : ((ds.filter fun d => decide (IsEndpoint c d)).map (numberOf c)).Nodup

/-- The records `rs` from `record` up to the end marker at `last` -/
structure Records (record last : Nat) (rs : List Nat) : Prop where
  tiles : Tiles (sizeOf c) record rs last
  marker : c.byte last = USB_END_DESCRIPTOR_MARKER
  kinds : ∀ r ∈ rs, c.byte r = USB_DEVICE_DESCRIPTOR_MARKER ∨
    c.byte r = USB_CONFIGURATION_DESCRIPTOR_MARKER ∨ c.byte r = USB_STRING_DESCRIPTOR_MARKER ∨
    c.byte r = USB_GENERIC_DESCRIPTOR_MARKER

variable {c} {t : Check}

theorem GoesOn.of_ok {x : Step} {Q : Check → Prop} (h : GoesOn x Q) (hx : x = .ok t) : Q t := by
  rcases h with ⟨o, herror, -⟩ | ⟨t', hok, hQ⟩
  · exact absurd (herror.symm.trans hx) (by simp)
  · obtain rfl := Except.ok.inj (hok.symm.trans hx)
    exact hQ

theorem GoesOn.ne_accepts {x : Step} {Q : Check → Prop} (h : GoesOn x Q) :
    x ≠ .error (.returned .ok) := by
  intro hx
  rcases h with ⟨o, herror, ho⟩ | ⟨t', hok, -⟩
  · exact ho (Except.error.inj (herror.symm.trans hx))
  · exact absurd (hok.symm.trans hx) (by simp)

/-! ### Descriptors -/

section Descriptors

variable {first last d : Nat} {epUsed : Nat → Bool} {ds : List Nat}

theorem Descriptors.nil : Descriptors c last last epUsed [] :=
  ⟨.nil last, by simp, by simp, by simp, by simp⟩

theorem Descriptors.cons_other (h : Descriptors c (d + lengthOf c d) last epUsed ds)
    (hlength : 0 < lengthOf c d) (hother : ¬ IsEndpoint c d) :
    Descriptors c d last epUsed (d :: ds) := by
  have hall : ∀ {P : Nat → Prop}, (∀ x ∈ ds, IsEndpoint c x → P x) →
      ∀ x ∈ d :: ds, IsEndpoint c x → P x := by
    intro P hP x hx hendpoint
    rcases List.mem_cons.mp hx with rfl | hx
    · exact absurd hendpoint hother
    · exact hP x hx hendpoint
  refine ⟨.cons hlength h.tiles, hall h.length, hall h.positive, hall h.free, ?_⟩
  rw [List.filter_cons_of_neg (by simpa using hother)]
  exact h.distinct

theorem Descriptors.cons_endpoint {epUsed' : Nat → Bool}
    (h : Descriptors c (d + lengthOf c d) last epUsed' ds) (hendpoint : IsEndpoint c d)
    (hlength : c.byte d = sizeofEndpoint) (hpositive : 1 ≤ numberOf c d)
    (hfree : epUsed (numberOf c d - 1) = false)
    (hused : ∀ i, epUsed' i = true ↔ i = numberOf c d - 1 ∨ epUsed i = true) :
    Descriptors c d last epUsed (d :: ds) := by
  have hother : ∀ x ∈ ds, IsEndpoint c x →
      numberOf c x ≠ numberOf c d ∧ epUsed (numberOf c x - 1) = false := by
    intro x hx hx'
    have hnot : ¬ epUsed' (numberOf c x - 1) = true := by
      rw [h.free x hx hx']
      decide
    rw [hused, not_or] at hnot
    exact ⟨fun heq => hnot.1 (by rw [heq]), eq_false_of_ne_true hnot.2⟩
  refine ⟨.cons ?_ h.tiles, ?_, ?_, ?_, ?_⟩
  · rw [lengthOf, hlength]
    decide
  · exact List.forall_mem_cons.mpr ⟨fun _ => hlength, h.length⟩
  · exact List.forall_mem_cons.mpr ⟨fun _ => hpositive, h.positive⟩
  · exact List.forall_mem_cons.mpr ⟨fun _ => hfree, fun x hx hx' => (hother x hx hx').2⟩
  · rw [List.filter_cons_of_pos (by simpa using hendpoint), List.map_cons, List.nodup_cons]
    refine ⟨fun hmem => ?_, h.distinct⟩
    obtain ⟨x, hx, heq⟩ := List.mem_map.mp hmem
    obtain ⟨hx, hendpoint'⟩ := List.mem_filter.mp hx
    exact (hother x hx (by simpa using hendpoint')).1 heq

end Descriptors

/-! ### Records -/

/-- A configuration record with its descriptors, of which the first is an interface -/
def ConfigurationRecord (c : Configuration) (q : Nat) : Prop :=
  c.byte q = USB_CONFIGURATION_DESCRIPTOR_MARKER ∧
  ∃ ds, Descriptors c (q + sizeofConfiguration) (q + sizeOf c q) (fun _ => false) ds ∧
    ∀ d ∈ ds.head?, IsInterface c d

/-- Records; there is one configuration record among them, unless there was one before. -/
def RecordsAhead (c : Configuration) (record : Nat) (foundConfig : Bool) : Prop :=
  ∃ last rs, Records c record last rs ∧
    (foundConfig = true → ∀ r ∈ rs, c.byte r ≠ USB_CONFIGURATION_DESCRIPTOR_MARKER) ∧
    (foundConfig = false → ∃ q ∈ rs, ConfigurationRecord c q ∧
      ∀ r ∈ rs, c.byte r = USB_CONFIGURATION_DESCRIPTOR_MARKER → r = q)

theorem RecordsAhead.cons_other {record : Nat} {foundConfig : Bool}
    (h : RecordsAhead c (record + sizeOf c record) foundConfig) (hsize : 0 < sizeOf c record)
    (hkind : c.byte record = USB_DEVICE_DESCRIPTOR_MARKER ∨
      c.byte record = USB_STRING_DESCRIPTOR_MARKER ∨
      c.byte record = USB_GENERIC_DESCRIPTOR_MARKER) : RecordsAhead c record foundConfig := by
  obtain ⟨last, rs, hrecords, hnone, hone⟩ := h
  have hother : c.byte record ≠ USB_CONFIGURATION_DESCRIPTOR_MARKER := by
    rcases hkind with h | h | h <;> rw [h] <;> decide
  refine ⟨last, record :: rs, ⟨.cons hsize hrecords.tiles, hrecords.marker,
    List.forall_mem_cons.mpr ⟨by tauto, hrecords.kinds⟩⟩,
    fun hfound => List.forall_mem_cons.mpr ⟨hother, hnone hfound⟩, fun hfound => ?_⟩
  obtain ⟨q, hq, hconfig, hunique⟩ := hone hfound
  exact ⟨q, List.mem_cons_of_mem _ hq, hconfig,
    List.forall_mem_cons.mpr ⟨fun h => absurd h hother, hunique⟩⟩

def Ahead (c : Configuration) : Check → Prop
  | .records record _ foundConfig => RecordsAhead c record foundConfig
  | .interfaces frame interface =>
      RecordsAhead c frame.next true ∧
      ∃ ds, Descriptors c interface frame.next frame.epUsed ds ∧
        ∀ d ∈ ds.head?, IsInterface c d
  | .classes frame _ _ endpoint =>
      RecordsAhead c frame.next true ∧
      ∃ ds, Descriptors c endpoint frame.next frame.epUsed ds
  | .endpoints frame _ _ endpoint =>
      RecordsAhead c frame.next true ∧
      ∃ ds, Descriptors c endpoint frame.next frame.epUsed ds

theorem ahead_of_accepts (h : Ends (checkStep c) t (.returned .ok)) : Ahead c t := by
  generalize ho : Outcome.returned .ok = o at h
  induction h with
  | @stop t o hstop =>
    subst ho
    cases t with
    | records record foundDevice foundConfig =>
      rcases checkRecord_goesOn c record foundDevice foundConfig with ⟨hmarker, -, hconfig, -⟩ | hgoes
      · exact ⟨record, [], ⟨.nil record, hmarker, by simp⟩, by simp,
          fun h => absurd (hconfig.symm.trans h) (by decide)⟩
      · exact absurd hstop hgoes.ne_accepts
    | interfaces frame interface => exact absurd hstop checkInterface_goesOn.ne_accepts
    | classes frame recordError nEndpoints endpoint =>
      exact absurd hstop checkClass_goesOn.ne_accepts
    | endpoints frame recordError nEndpoints endpoint =>
      exact absurd hstop checkEndpoint_goesOn.ne_accepts
  | @next t t' o hnext hends ih =>
    subst ho
    have ahead := ih rfl
    cases t with
    | records record foundDevice foundConfig =>
      rcases checkRecord_goesOn c record foundDevice foundConfig with ⟨-, -, -, hstop⟩ | hgoes
      · exact absurd (hstop.symm.trans hnext) (by simp)
      rcases hgoes.of_ok hnext with ⟨hkind, hsize, rfl⟩ |
        ⟨hkind, hfound, frame, hlast, -, hused, rfl⟩ | ⟨hkind, hsize, rfl⟩
      · exact RecordsAhead.cons_other ahead hsize (Or.inl hkind)
      · obtain ⟨⟨last, rs, hrecords, hnone, -⟩, ds, hds, hhead⟩ := ahead
        rw [hlast] at hrecords hds
        rw [hused] at hds
        have hsize : 0 < sizeOf c record := by
          have := hds.tiles.le
          unfold sizeofConfiguration at this
          omega
        refine ⟨last, record :: rs, ⟨.cons hsize hrecords.tiles, hrecords.marker,
          List.forall_mem_cons.mpr ⟨Or.inr (Or.inl hkind), hrecords.kinds⟩⟩,
          fun h => absurd (hfound.symm.trans h) (by decide), fun _ =>
          ⟨record, List.mem_cons_self, ⟨hkind, ds, hds, hhead⟩,
            List.forall_mem_cons.mpr ⟨fun _ => rfl, fun r hr h => ?_⟩⟩⟩
        exact absurd h (hnone rfl r hr)
      · exact RecordsAhead.cons_other ahead hsize (Or.inr hkind)
    | interfaces frame interface =>
      rcases checkInterface_goesOn.of_ok hnext with ⟨-, hlast, rfl⟩ |
        ⟨-, htype, hlength, -, frame', recordError, nEndpoints, hlast, -, hused, rfl⟩
      · subst hlast
        exact ⟨ahead, [], .nil, by simp⟩
      · obtain ⟨hrest, ds, hds⟩ := ahead
        rw [hlast] at hrest
        rw [hlast, hused] at hds
        have hsize : lengthOf c interface = sizeofInterface.toNat := congrArg UInt8.toNat hlength
        have hother : ¬ IsEndpoint c interface := by
          rw [IsEndpoint, htype]
          decide
        exact ⟨hrest, interface :: ds, .cons_other (by rwa [hsize]) (by rw [hsize]; decide) hother,
          fun d hd => Option.some.inj hd ▸ ⟨htype, hlength⟩⟩
    | classes frame recordError nEndpoints endpoint =>
      rcases checkClass_goesOn.of_ok hnext with ⟨-, rfl⟩ | ⟨htype, -, rfl⟩
      · exact ahead
      · obtain ⟨hrest, ds, hds⟩ := ahead
        have hlength : 0 < lengthOf c endpoint := by
          rw [Nat.pos_iff_ne_zero]
          intro hzero
          have hself : endpoint + (c.byte endpoint).toNat = endpoint :=
            congrArg (endpoint + ·) hzero
          rw [hself] at hnext hends
          exact not_ends_of_self hnext hends
        exact ⟨hrest, endpoint :: ds, hds.cons_other hlength htype⟩
    | endpoints frame recordError nEndpoints endpoint =>
      rcases checkEndpoint_goesOn.of_ok hnext with ⟨-, rfl⟩ | ⟨-, htype, hlength, -, hpositive, hfree,
        frame', nEndpoints', hlast, -, hused, rfl⟩
      · obtain ⟨hrest, ds, hds, -⟩ := ahead
        exact ⟨hrest, ds, hds⟩
      · obtain ⟨hrest, ds, hds⟩ := ahead
        rw [hlast] at hrest hds
        have hsize : lengthOf c endpoint = sizeofEndpoint.toNat := congrArg UInt8.toNat hlength
        exact ⟨hrest, endpoint :: ds,
          .cons_endpoint (by rwa [hsize]) htype hlength hpositive hfree hused⟩

/-- **Acceptance.**  The records of an accepted configuration -/
theorem Accepted.records (h : Accepted c) : ∃ last rs, Records c 0 last rs ∧
    ∃ q ∈ rs, ConfigurationRecord c q ∧
      ∀ r ∈ rs, c.byte r = USB_CONFIGURATION_DESCRIPTOR_MARKER → r = q := by
  obtain ⟨last, rs, hrecords, -, hone⟩ := ahead_of_accepts h
  exact ⟨last, rs, hrecords, hone rfl⟩

end TinyClr.UsbConfiguration
