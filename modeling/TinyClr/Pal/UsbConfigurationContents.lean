import TinyClr.Pal.UsbConfigurationWalks

/-!
# What the records of an accepted configuration hold

The lengths in a record are those that its size leaves room for, all records lie in the configuration,
and a search needs no more steps than the configuration has bytes.
-/

namespace TinyClr.UsbConfiguration

open TinyClr.Library

/-! ### Lengths -/

/-- The length of a descriptor is what remains of its record. -/
structure Sound (c : Configuration) (r : Nat) : Prop where
  device : c.byte r = USB_DEVICE_DESCRIPTOR_MARKER → sizeOf c r = (c.byte (r + 4)).toNat + 4
  configuration : c.byte r = USB_CONFIGURATION_DESCRIPTOR_MARKER →
    sizeOf c r = c.word (r + 6) + 4
  string : c.byte r = USB_STRING_DESCRIPTOR_MARKER → sizeOf c r = (c.byte (r + 4)).toNat + 4

def Check.head : Check → Nat
  | .records record _ _ => record
  | .interfaces frame _ => frame.next
  | .classes frame _ _ _ => frame.next
  | .endpoints frame _ _ _ => frame.next

section Contents

variable {c : Configuration} {t : Check} {record size last : Nat} {rs : List Nat}
  {foundDevice foundConfig : Bool}

theorem checkDevice_length : GoesOn (checkDevice c record size foundDevice foundConfig) fun t =>
    t.head = record + size ∧ size = (c.byte (record + 4)).toNat + 4 := by
  refine .test (by decide) fun _ => .test (by decide) fun hsize => .byte fun _ =>
    .test (by decide) fun hlength => .byte fun _ => .test (by decide) fun _ => .byte fun _ =>
    .test (by decide) fun _ => .byte fun _ => .test (by decide) fun _ => .ok ⟨rfl, ?_⟩
  rw [not_not.mp hsize, not_not.mp hlength]
  decide

theorem checkConfiguration_length :
    GoesOn (checkConfiguration c record size foundDevice foundConfig) fun t =>
      t.head = record + size ∧ size = c.word (record + 6) + 4 :=
  .test (by decide) fun _ => .byte fun _ => .test (by decide) fun _ => .word fun _ =>
    .test (by decide) fun hsize => .byte fun _ => .test (by decide) fun _ => .byte fun _ =>
    .test (by decide) fun _ => .byte fun _ => .test (by decide) fun _ => .byte fun _ =>
    .test (by decide) fun _ => .ok ⟨rfl, not_not.mp hsize⟩

theorem checkString_length : GoesOn (checkString c record size foundDevice foundConfig) fun t =>
    t.head = record + size ∧ size = (c.byte (record + 4)).toNat + 4 :=
  .byte fun _ => .test (by decide) fun hsize => .byte fun _ => .test (by decide) fun _ =>
    .ok ⟨rfl, not_not.mp hsize⟩

theorem checkGeneric_head : GoesOn (checkGeneric c record size foundDevice foundConfig) fun t =>
    t.head = record + size :=
  .byte fun _ => .test (by decide) fun _ => .ok rfl

theorem checkRecord_sound (h : checkRecord c record foundDevice foundConfig = .ok t) :
    t.head = record + sizeOf c record ∧ c.byte record ≠ USB_END_DESCRIPTOR_MARKER ∧
      Sound c record := by
  have hmarker : c.byte record ≠ USB_END_DESCRIPTOR_MARKER := by
    intro hend
    rcases checkRecord_goesOn c record foundDevice foundConfig with ⟨-, -, -, hstop⟩ | hgoes
    · exact absurd (hstop.symm.trans h) (by simp)
    · rw [hend] at hgoes
      rcases hgoes.of_ok h with ⟨hkind, -⟩ | ⟨hkind, -⟩ | ⟨hkind | hkind, -⟩ <;>
      exact absurd hkind (by decide)
  have hgoes : GoesOn (checkRecord c record foundDevice foundConfig) fun t =>
      t.head = record + sizeOf c record ∧ c.byte record ≠ USB_END_DESCRIPTOR_MARKER ∧
        Sound c record := by
    refine .word fun _ => .byte fun _ => ?_
    rw [if_neg hmarker]
    split
    · rename_i hdevice
      refine checkDevice_length.imp fun t ht => ⟨ht.1, hmarker, ⟨fun _ => ht.2, ?_, ?_⟩⟩ <;>
      · intro hkind
        rw [hdevice] at hkind
        exact absurd hkind (by decide)
    · split
      · rename_i hconfig
        refine checkConfiguration_length.imp fun t ht =>
          ⟨ht.1, hmarker, ⟨?_, fun _ => ht.2, ?_⟩⟩ <;>
        · intro hkind
          rw [hconfig] at hkind
          exact absurd hkind (by decide)
      · split
        · rename_i hstring
          refine checkString_length.imp fun t ht => ⟨ht.1, hmarker, ⟨?_, ?_, fun _ => ht.2⟩⟩ <;>
          · intro hkind
            rw [hstring] at hkind
            exact absurd hkind (by decide)
        · split
          · rename_i hdevice hconfig hstring _
            exact checkGeneric_head.imp fun t ht =>
              ⟨ht, hmarker, ⟨fun hkind => absurd hkind hdevice,
                fun hkind => absurd hkind hconfig, fun hkind => absurd hkind hstring⟩⟩
          · exact Or.inl (rejects_fail (by decide))
  exact hgoes.of_ok h

theorem checkRecord_stops
    (h : checkRecord c record foundDevice foundConfig = .error (.returned .ok)) :
    c.byte record = USB_END_DESCRIPTOR_MARKER ∧ record + 3 < c.length := by
  rcases checkRecord_goesOn c record foundDevice foundConfig with ⟨hmarker, -⟩ | hgoes
  · refine ⟨hmarker, ?_⟩
    by_contra hout
    have hinside : ¬ Inside c (record + sizeofHeader) (record + 2 + 1) := fun hin => hout hin.2
    unfold checkRecord at h
    rw [readWord_bind, if_neg hinside] at h
    exact absurd h (by simp)
  · exact absurd h hgoes.ne_accepts

theorem Records.of_end (h : Records c record last rs)
    (hmarker : c.byte record = USB_END_DESCRIPTOR_MARKER) : last = record := by
  obtain ⟨htiles, -, hkinds⟩ := h
  cases htiles with
  | nil => rfl
  | cons hpos hrest =>
    rcases hkinds record List.mem_cons_self with hkind | hkind | hkind | hkind <;>
    · rw [hmarker] at hkind
      exact absurd hkind (by decide)

theorem Records.of_record (h : Records c record last rs)
    (hmarker : c.byte record ≠ USB_END_DESCRIPTOR_MARKER) :
    ∃ rest, rs = record :: rest ∧ Records c (record + sizeOf c record) last rest := by
  obtain ⟨htiles, hlast, hkinds⟩ := h
  cases htiles with
  | nil => exact absurd hlast hmarker
  | @cons _ _ rest hpos hrest =>
    exact ⟨rest, rfl, hrest, hlast, fun r hr => hkinds r (List.mem_cons_of_mem _ hr)⟩

theorem sound_of_accepts (h : Ends (checkStep c) t (.returned .ok)) :
    ∀ last rs, Records c t.head last rs → last + 3 < c.length ∧ ∀ r ∈ rs, Sound c r := by
  generalize ho : Outcome.returned .ok = o at h
  induction h with
  | @stop t o hstop =>
    subst ho
    intro last rs hrecords
    cases t with
    | records record foundDevice foundConfig =>
      obtain ⟨hmarker, hinside⟩ := checkRecord_stops hstop
      obtain rfl : last = record := hrecords.of_end hmarker
      refine ⟨hinside, fun r hr => ?_⟩
      obtain ⟨hle, hpos, hend⟩ := hrecords.tiles.mem hr
      have hhead : (Check.records last foundDevice foundConfig).head = last := rfl
      omega
    | interfaces frame interface => exact absurd hstop checkInterface_goesOn.ne_accepts
    | classes frame recordError nEndpoints endpoint =>
      exact absurd hstop checkClass_goesOn.ne_accepts
    | endpoints frame recordError nEndpoints endpoint =>
      exact absurd hstop checkEndpoint_goesOn.ne_accepts
  | @next t t' o hnext hends ih =>
    intro last rs hrecords
    have ahead := ih ho
    cases t with
    | records record foundDevice foundConfig =>
      obtain ⟨hhead, hmarker, hsound⟩ := checkRecord_sound hnext
      obtain ⟨rest, rfl, hrest⟩ := hrecords.of_record hmarker
      obtain ⟨hlast, hall⟩ := ahead last rest (hhead ▸ hrest)
      exact ⟨hlast, List.forall_mem_cons.mpr ⟨hsound, hall⟩⟩
    | interfaces frame interface =>
      rcases checkInterface_goesOn.of_ok hnext with ⟨-, -, rfl⟩ |
        ⟨-, -, -, -, frame', recordError, nEndpoints, hlast, -, -, rfl⟩
      · exact ahead last rs hrecords
      · exact ahead last rs (hlast.symm ▸ hrecords : Records c frame'.next last rs)
    | classes frame recordError nEndpoints endpoint =>
      rcases checkClass_goesOn.of_ok hnext with ⟨-, rfl⟩ | ⟨-, -, rfl⟩ <;>
      exact ahead last rs hrecords
    | endpoints frame recordError nEndpoints endpoint =>
      rcases checkEndpoint_goesOn.of_ok hnext with ⟨-, rfl⟩ |
        ⟨-, -, -, -, -, -, frame', nEndpoints', hlast, -, -, rfl⟩
      · exact ahead last rs hrecords
      · exact ahead last rs (hlast.symm ▸ hrecords : Records c frame'.next last rs)

theorem Accepted.sound (h : Accepted c) {r : Nat} (hr : IsRecord c r) :
    r + sizeOf c r < c.length ∧ Sound c r := by
  obtain ⟨last, rs, hrecords, -⟩ := h.records
  obtain ⟨hlast, hsound⟩ := sound_of_accepts h last rs hrecords
  have hmem := hrecords.mem_iff.mpr hr
  obtain ⟨-, -, hend⟩ := hrecords.tiles.mem hmem
  exact ⟨by omega, hsound r hmem⟩

end Contents

/-! ### Searches -/

section Search

variable {c : Configuration} {first last : Nat} {rs : List Nat} {marker : UInt8}
  {packet : SetupPacket}

theorem find_loop {setup : Option SetupPacket} {result : Found} (h : Records c first last rs)
    (hends : Ends (findStep c marker setup) first result) {fuel : Nat} (hfuel : rs.length < fuel) :
    loop (findStep c marker setup) fuel first = some result := by
  obtain ⟨htiles, hlast, hkinds⟩ := h
  induction htiles generalizing fuel with
  | nil last =>
    obtain ⟨fuel, rfl⟩ := Nat.exists_eq_succ_of_ne_zero (by omega : fuel ≠ 0)
    have hstop : findStep c marker setup last = .error (.header none) := by
      unfold findStep
      dsimp only
      rw [hlast]
      rfl
    rw [loop, hstop, hends.step_error hstop]
  | @cons first last rs hpos hrest ih =>
    obtain ⟨fuel, rfl⟩ := Nat.exists_eq_succ_of_ne_zero (by omega : fuel ≠ 0)
    rw [List.length_cons] at hfuel
    rw [loop]
    rcases hstep : findStep c marker setup first with result' | next
    · rw [hends.step_error hstep]
    · have hnext : next = first + sizeOf c first := by
        rcases findStep_cases marker setup (hkinds first List.mem_cons_self) with
          ⟨-, h⟩ | ⟨-, ⟨-, h⟩ | ⟨-, h⟩⟩ | ⟨-, -, h⟩
        · exact absurd (h.symm.trans hstep) (by simp)
        · exact absurd (h.symm.trans hstep) (by simp)
        · exact absurd (h.symm.trans hstep) (by simp)
        · exact (Except.ok.inj (h.symm.trans hstep)).symm
      subst hnext
      exact ih (hends.step_ok hstep) (Nat.lt_of_succ_lt_succ hfuel) hlast
        fun r hr => hkinds r (List.mem_cons_of_mem _ hr)

/-- **The search** for a record of an accepted configuration, for a setup packet -/
theorem Accepted.find (h : Accepted c) (marker : UInt8) (packet : SetupPacket) :
    ∃ result, usbFindRecord c c.length marker (some packet) = some (.header result) ∧
      ((∀ g, IsRecord c g → InTheWay c marker (some packet) g →
          ∃ p, IsRecord c p ∧ p < g ∧ Wanted c marker (some packet) p) →
        (Found.header result).Right c marker (some packet)) := by
  obtain ⟨last, rs, hrecords, -⟩ := h.records
  obtain ⟨hlast, -⟩ := sound_of_accepts h last rs hrecords
  have hlength : rs.length * 1 ≤ last - 0 := by
    have := hrecords.tiles.length_mul_le (k := 1) fun x hx => (hrecords.tiles.mem hx).2.1
    omega
  obtain ⟨result, hends, hresult⟩ := find_ends marker (some packet) hrecords
  have hloop := find_loop hrecords hends (by omega : rs.length < c.length)
  have hfinds : (∀ g, IsRecord c g → InTheWay c marker (some packet) g →
      ∃ p, IsRecord c p ∧ p < g ∧ Wanted c marker (some packet) p) →
      result.Right c marker (some packet) := by
    intro hway
    obtain ⟨fuel, result', hfound, hright⟩ := (findsRecord_iff h marker (some packet)).mpr hway
    rwa [hends.unique (Ends.of_loop hfound)]
  rcases hresult with ⟨rfl, -⟩ | ⟨p, -, -, ⟨-, rfl⟩ | ⟨-, ⟨hnone, -⟩ | ⟨-, rfl⟩⟩⟩
  · exact ⟨none, hloop, hfinds⟩
  · exact ⟨some p, hloop, hfinds⟩
  · exact absurd hnone (by simp)
  · exact ⟨some p, hloop, hfinds⟩

end Search

end TinyClr.UsbConfiguration
