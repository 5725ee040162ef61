import TinyClr.Pal.UsbConfigurationAccepted

/-!
# Walking an accepted configuration

A record is found unless a generic record gets in the way: `USB_FindRecord` looks at the request of a
generic record whatever it is looking for, and follows the pointer to the setup packet to do so.  The
endpoints are then enumerated one by one.
-/

namespace TinyClr.UsbConfiguration

open TinyClr.Library

section Find

variable (c : Configuration)

def IsRecord (r : Nat) : Prop :=
  Visits (sizeOf c) (fun r => c.byte r = USB_END_DESCRIPTOR_MARKER) 0 r

/-- A record of the marker, with the key that the setup packet asks for -/
def Wanted (marker : UInt8) (setup : Option SetupPacket) (r : Nat) : Prop :=
  c.byte r = marker ∧
  (marker = USB_DEVICE_DESCRIPTOR_MARKER ∨ marker = USB_CONFIGURATION_DESCRIPTOR_MARKER ∨
    (marker = USB_STRING_DESCRIPTOR_MARKER ∧
      ∃ packet, setup = some packet ∧ c.byte (r + 1) = packet.wValue.toUInt8) ∨
    (marker = USB_GENERIC_DESCRIPTOR_MARKER ∧
      ∃ packet, setup = some packet ∧ matchesGeneric c packet r = true))

/-- A record that gets in the way: without a setup packet a generic one, and a string if strings are
    looked for; with one, a generic record of that request if another kind is looked for -/
def InTheWay (marker : UInt8) (setup : Option SetupPacket) (r : Nat) : Prop :=
  (c.byte r = USB_GENERIC_DESCRIPTOR_MARKER ∧ (setup = none ∨
    marker ≠ USB_GENERIC_DESCRIPTOR_MARKER ∧
      ∃ packet, setup = some packet ∧ matchesGeneric c packet r = true)) ∨
  (c.byte r = USB_STRING_DESCRIPTOR_MARKER ∧ marker = USB_STRING_DESCRIPTOR_MARKER ∧ setup = none)

def Found.Right (marker : UInt8) (setup : Option SetupPacket) : Found → Prop
  | .header none => ∀ r, IsRecord c r → ¬ Wanted c marker setup r
  | .header (some p) => IsRecord c p ∧ Wanted c marker setup p ∧
      ∀ r, IsRecord c r → r < p → ¬ Wanted c marker setup r
  | .nullSetup => False

/-- `USB_FindRecord` ends with the right answer. -/
def FindsRecord (marker : UInt8) (setup : Option SetupPacket) : Prop :=
  ∃ fuel result, usbFindRecord c fuel marker setup = some result ∧ result.Right c marker setup

variable {c} {marker : UInt8} {setup : Option SetupPacket} {r : Nat}

theorem not_wanted_of_inTheWay (h : InTheWay c marker setup r) : ¬ Wanted c marker setup r := by
  rintro ⟨rfl, hwanted⟩
  rcases h with ⟨hgeneric, hsetup⟩ | ⟨hstring, -, rfl⟩
  · rw [hgeneric] at hwanted hsetup
    rcases hsetup with rfl | ⟨hne, -⟩
    · simp [USB_GENERIC_DESCRIPTOR_MARKER, USB_DEVICE_DESCRIPTOR_MARKER,
        USB_CONFIGURATION_DESCRIPTOR_MARKER] at hwanted
    · exact hne rfl
  · rw [hstring] at hwanted
    simp [USB_STRING_DESCRIPTOR_MARKER, USB_DEVICE_DESCRIPTOR_MARKER,
      USB_CONFIGURATION_DESCRIPTOR_MARKER] at hwanted

theorem findStep_string {marker : UInt8} {setup : Option SetupPacket}
    (hkind : c.byte r = USB_STRING_DESCRIPTOR_MARKER) :
    findStep c marker setup r =
      if USB_STRING_DESCRIPTOR_MARKER = marker then
        match setup with
        | none => .error .nullSetup
        | some setup =>
            if c.byte (r + 1) = setup.wValue.toUInt8 then .error (.header (some r))
            else .ok (r + sizeOf c r)
      else .ok (r + sizeOf c r) := by
  have hstring : ¬ (USB_STRING_DESCRIPTOR_MARKER = USB_DEVICE_DESCRIPTOR_MARKER ∨
      USB_STRING_DESCRIPTOR_MARKER = USB_CONFIGURATION_DESCRIPTOR_MARKER) := by decide
  simp only [findStep, hkind, hstring, if_false, if_true]
  rfl

theorem findStep_generic {marker : UInt8} {setup : Option SetupPacket}
    (hkind : c.byte r = USB_GENERIC_DESCRIPTOR_MARKER) :
    findStep c marker setup r =
      match setup with
      | none => .error .nullSetup
      | some setup =>
          if matchesGeneric c setup r then .error (.header (some r))
          else .ok (r + sizeOf c r) := by
  have hgeneric : ¬ (USB_GENERIC_DESCRIPTOR_MARKER = USB_DEVICE_DESCRIPTOR_MARKER ∨
      USB_GENERIC_DESCRIPTOR_MARKER = USB_CONFIGURATION_DESCRIPTOR_MARKER) ∧
      USB_GENERIC_DESCRIPTOR_MARKER ≠ USB_STRING_DESCRIPTOR_MARKER := by decide
  simp only [findStep, hkind, hgeneric, if_false, if_true]
  rfl

theorem findStep_cases (marker : UInt8) (setup : Option SetupPacket)
    (hkind : c.byte r = USB_DEVICE_DESCRIPTOR_MARKER ∨
      c.byte r = USB_CONFIGURATION_DESCRIPTOR_MARKER ∨ c.byte r = USB_STRING_DESCRIPTOR_MARKER ∨
      c.byte r = USB_GENERIC_DESCRIPTOR_MARKER) :
    (Wanted c marker setup r ∧ findStep c marker setup r = .error (.header (some r))) ∨
    (InTheWay c marker setup r ∧
      (setup = none ∧ findStep c marker setup r = .error .nullSetup ∨
        setup ≠ none ∧ findStep c marker setup r = .error (.header (some r)))) ∨
    (¬ Wanted c marker setup r ∧ ¬ InTheWay c marker setup r ∧
      findStep c marker setup r = .ok (r + sizeOf c r)) := by
  have hplain : ∀ kind, kind = USB_DEVICE_DESCRIPTOR_MARKER ∨
      kind = USB_CONFIGURATION_DESCRIPTOR_MARKER → kind ≠ USB_STRING_DESCRIPTOR_MARKER ∧
      kind ≠ USB_GENERIC_DESCRIPTOR_MARKER := by
    rintro kind (rfl | rfl) <;> decide
  have hstring : ¬ (USB_STRING_DESCRIPTOR_MARKER = USB_DEVICE_DESCRIPTOR_MARKER ∨
      USB_STRING_DESCRIPTOR_MARKER = USB_CONFIGURATION_DESCRIPTOR_MARKER) ∧
      USB_STRING_DESCRIPTOR_MARKER ≠ USB_GENERIC_DESCRIPTOR_MARKER := by decide
  have hgeneric : ¬ (USB_GENERIC_DESCRIPTOR_MARKER = USB_DEVICE_DESCRIPTOR_MARKER ∨
      USB_GENERIC_DESCRIPTOR_MARKER = USB_CONFIGURATION_DESCRIPTOR_MARKER) ∧
      USB_GENERIC_DESCRIPTOR_MARKER ≠ USB_STRING_DESCRIPTOR_MARKER := by decide
  rcases or_assoc.mpr hkind with hkind | hkind | hkind
  · obtain ⟨hnostring, hnogeneric⟩ := hplain _ hkind
    by_cases hmarker : c.byte r = marker
    · refine Or.inl ⟨⟨hmarker, hmarker ▸ hkind.imp_right Or.inl⟩, ?_⟩
      unfold findStep
      dsimp only
      rw [if_pos hkind, if_pos hmarker]
    · refine Or.inr (Or.inr ⟨fun h => hmarker h.1, ?_, ?_⟩)
      · rintro (⟨h, -⟩ | ⟨h, -⟩)
        · exact hnogeneric h
        · exact hnostring h
      · unfold findStep
        dsimp only
        rw [if_pos hkind, if_neg hmarker]
        rfl
  · have hclear : (marker = USB_STRING_DESCRIPTOR_MARKER → setup ≠ none) →
        ¬ InTheWay c marker setup r := by
      rintro h (⟨hkind', -⟩ | ⟨-, hmarker, hnone⟩)
      · exact hstring.2 (hkind.symm.trans hkind')
      · exact h hmarker hnone
    by_cases hmarker : USB_STRING_DESCRIPTOR_MARKER = marker
    · rw [findStep_string hkind, if_pos hmarker]
      cases setup with
      | none => exact Or.inr (Or.inl ⟨Or.inr ⟨hkind, hmarker.symm, rfl⟩, Or.inl ⟨rfl, rfl⟩⟩)
      | some packet =>
        by_cases hvalue : c.byte (r + 1) = packet.wValue.toUInt8
        · exact Or.inl ⟨⟨hkind.trans hmarker, Or.inr (Or.inr (Or.inl ⟨hmarker.symm, packet, rfl,
            hvalue⟩))⟩, if_pos hvalue⟩
        · refine Or.inr (Or.inr ⟨?_, hclear fun _ => by simp, if_neg hvalue⟩)
          rintro ⟨-, h | h | ⟨-, packet', hpacket, hvalue'⟩ | ⟨h, -⟩⟩
          · exact hstring.1 (Or.inl (hmarker.trans h))
          · exact hstring.1 (Or.inr (hmarker.trans h))
          · obtain rfl := Option.some.inj hpacket
            exact hvalue hvalue'
          · exact hstring.2 (hmarker.trans h)
    · refine Or.inr (Or.inr ⟨fun h => hmarker (hkind.symm.trans h.1), hclear fun h => ?_, ?_⟩)
      · exact absurd h.symm hmarker
      · rw [findStep_string hkind, if_neg hmarker]
  · rw [findStep_generic hkind]
    cases setup with
    | none => exact Or.inr (Or.inl ⟨Or.inl ⟨hkind, Or.inl rfl⟩, Or.inl ⟨rfl, rfl⟩⟩)
    | some packet =>
      by_cases hmatches : matchesGeneric c packet r = true
      · by_cases hmarker : marker = USB_GENERIC_DESCRIPTOR_MARKER
        · exact Or.inl ⟨⟨hkind.trans hmarker.symm, Or.inr (Or.inr (Or.inr ⟨hmarker, packet, rfl,
            hmatches⟩))⟩, if_pos hmatches⟩
        · exact Or.inr (Or.inl ⟨Or.inl ⟨hkind, Or.inr ⟨hmarker, packet, rfl, hmatches⟩⟩,
            Or.inr ⟨by simp, if_pos hmatches⟩⟩)
      · refine Or.inr (Or.inr ⟨?_, ?_, if_neg hmatches⟩)
        · rintro ⟨hmarker, h | h | ⟨h, -⟩ | ⟨-, packet', hpacket, hmatches'⟩⟩
          · exact hgeneric.1 (Or.inl (hkind.symm.trans (hmarker.trans h)))
          · exact hgeneric.1 (Or.inr (hkind.symm.trans (hmarker.trans h)))
          · exact hgeneric.2 (hkind.symm.trans (hmarker.trans h))
          · obtain rfl := Option.some.inj hpacket
            exact hmatches hmatches'
        · rintro (⟨-, hnone | ⟨-, packet', hpacket, hmatches'⟩⟩ | ⟨-, -, hnone⟩)
          · exact absurd hnone (by simp)
          · obtain rfl := Option.some.inj hpacket
            exact hmatches hmatches'
          · exact absurd hnone (by simp)

/-- How the search over the records `rs` ends: it passes those that are not wanted and not in the
    way. -/
theorem find_ends (marker : UInt8) (setup : Option SetupPacket) {first last : Nat} {rs : List Nat}
    (h : Records c first last rs) :
    ∃ result, Ends (findStep c marker setup) first result ∧
      ((result = .header none ∧ ∀ r ∈ rs, ¬ Wanted c marker setup r ∧ ¬ InTheWay c marker setup r) ∨
      ∃ p ∈ rs, (∀ r ∈ rs, r < p → ¬ Wanted c marker setup r ∧ ¬ InTheWay c marker setup r) ∧
        (Wanted c marker setup p ∧ result = .header (some p) ∨
          InTheWay c marker setup p ∧
            (setup = none ∧ result = .nullSetup ∨
              setup ≠ none ∧ result = .header (some p)))) := by
  obtain ⟨htiles, hmarker, hkinds⟩ := h
  induction htiles with
  | nil last =>
    refine ⟨.header none, .stop ?_, Or.inl ⟨rfl, by simp⟩⟩
    unfold findStep
    dsimp only
    rw [hmarker]
    rfl
  | @cons first last rs hpos hrest ih =>
    have hbefore : ∀ p, p ∈ first :: rs → first ≤ p := fun p hp =>
      ((Tiles.cons hpos hrest).mem hp).1
    rcases findStep_cases marker setup (hkinds first List.mem_cons_self) with
      ⟨hwanted, hstep⟩ | ⟨hway, hstep⟩ | ⟨hwanted, hway, hstep⟩
    · exact ⟨_, .stop hstep, Or.inr ⟨first, List.mem_cons_self,
        fun r hr hlt => absurd (hbefore r hr) (by omega), Or.inl ⟨hwanted, rfl⟩⟩⟩
    · rcases hstep with ⟨hnone, hstep⟩ | ⟨hsome, hstep⟩
      · exact ⟨_, .stop hstep, Or.inr ⟨first, List.mem_cons_self,
          fun r hr hlt => absurd (hbefore r hr) (by omega), Or.inr ⟨hway, Or.inl ⟨hnone, rfl⟩⟩⟩⟩
      · exact ⟨_, .stop hstep, Or.inr ⟨first, List.mem_cons_self,
          fun r hr hlt => absurd (hbefore r hr) (by omega), Or.inr ⟨hway, Or.inr ⟨hsome, rfl⟩⟩⟩⟩
    · obtain ⟨result, hends, hresult⟩ := ih hmarker fun r hr => hkinds r (List.mem_cons_of_mem _ hr)
      refine ⟨result, .next hstep hends, ?_⟩
      rcases hresult with ⟨hnone, hall⟩ | ⟨p, hp, hall, hcases⟩
      · exact Or.inl ⟨hnone, List.forall_mem_cons.mpr ⟨⟨hwanted, hway⟩, hall⟩⟩
      · exact Or.inr ⟨p, List.mem_cons_of_mem _ hp,
          List.forall_mem_cons.mpr ⟨fun _ => ⟨hwanted, hway⟩, hall⟩, hcases⟩

theorem Records.mem_iff {last : Nat} {rs : List Nat} (h : Records c 0 last rs) :
    r ∈ rs ↔ IsRecord c r := by
  refine h.tiles.mem_iff_visits h.marker fun y hy => ?_
  rcases h.kinds y hy with hkind | hkind | hkind | hkind <;> rw [hkind] <;> decide

/-- **The search** for a record is right exactly when a wanted record lies before every record that
    gets in its way. -/
theorem findsRecord_iff (h : Accepted c) (marker : UInt8) (setup : Option SetupPacket) :
    FindsRecord c marker setup ↔ ∀ g, IsRecord c g → InTheWay c marker setup g →
      ∃ p, IsRecord c p ∧ p < g ∧ Wanted c marker setup p := by
  obtain ⟨last, rs, hrecords, -⟩ := h.records
  obtain ⟨result, hends, hresult⟩ := find_ends marker setup hrecords
  have hfinds : FindsRecord c marker setup ↔ result.Right c marker setup := by
    constructor
    · rintro ⟨fuel, result', hloop, hright⟩
      obtain rfl := hends.unique (Ends.of_loop hloop)
      exact hright
    · intro hright
      obtain ⟨fuel, hloop⟩ := ends_iff_loop.mp hends
      exact ⟨fuel, result, hloop, hright⟩
  rw [hfinds]
  rcases hresult with ⟨rfl, hall⟩ | ⟨p, hp, hall, ⟨hwanted, rfl⟩ | ⟨hway, hresult⟩⟩
  · refine iff_of_true (fun r hr => (hall r (hrecords.mem_iff.mpr hr)).1) fun g hg hway => ?_
    exact absurd hway (hall g (hrecords.mem_iff.mpr hg)).2
  · refine iff_of_true ⟨hrecords.mem_iff.mp hp, hwanted, fun r hr hlt =>
      (hall r (hrecords.mem_iff.mpr hr) hlt).1⟩ fun g hg hway =>
      ⟨p, hrecords.mem_iff.mp hp, ?_, hwanted⟩
    rcases Nat.lt_trichotomy g p with hlt | rfl | hlt
    · exact absurd hway (hall g (hrecords.mem_iff.mpr hg) hlt).2
    · exact absurd hwanted (not_wanted_of_inTheWay hway)
    · exact hlt
  · refine iff_of_false ?_ fun hfirst => ?_
    · rcases hresult with ⟨-, rfl⟩ | ⟨-, rfl⟩
      · exact id
      · exact fun hright => not_wanted_of_inTheWay hway hright.2.1
    · obtain ⟨q, hq, hlt, hwanted⟩ := hfirst p (hrecords.mem_iff.mp hp) hway
      exact (hall q (hrecords.mem_iff.mpr hq) hlt).1 hwanted

end Find

/-! ### Endpoints -/

section Next

variable (c : Configuration)

def IsDescriptor (d : Nat) : Prop :=
  ∃ q, IsRecord c q ∧ c.byte q = USB_CONFIGURATION_DESCRIPTOR_MARKER ∧
    Visits (lengthOf c) (fun d => q + sizeOf c q ≤ d) (q + sizeofConfiguration) d

def BelongsTo (endpoint interface : Nat) : Prop :=
  IsDescriptor c interface ∧ IsInterface c interface ∧ interface < endpoint ∧
    ∀ d, IsDescriptor c d → interface < d → d < endpoint → ¬ IsInterface c d

/-- The answers of `USB_NextEndpoint` from `ep` and `itfc` on, up to the first FALSE -/
inductive Yields : Option Nat → Option Nat → List (Nat × Option Nat) → Prop
  | stop {ep itfc : Option Nat} {fuel : Nat} : usbNextEndpoint c fuel ep itfc = some .none →
      Yields ep itfc []
  | found {ep itfc : Option Nat} {fuel e : Nat} {i : Option Nat} {l : List (Nat × Option Nat)} :
      usbNextEndpoint c fuel ep itfc = some (.found e i) → Yields (some e) i l →
      Yields ep itfc ((e, i) :: l)

/-- Iterating `USB_NextEndpoint` from `NULL` comes to an end, and yields every endpoint once, in
    order, with its interface; the endpoints have different numbers. -/
def EnumeratesEndpoints : Prop :=
  ∃ l, Yields c none none l ∧ (l.map Prod.fst).Pairwise (· < ·) ∧
    (∀ e i, (e, i) ∈ l ↔ IsDescriptor c e ∧ IsEndpoint c e ∧ ∃ j, i = some j ∧ BelongsTo c e j) ∧
    (l.map fun x => numberOf c x.1).Nodup

/-- The endpoints among the descriptors, each with the last interface before it -/
def pairs : Option Nat → List Nat → List (Nat × Option Nat)
  | _, [] => []
  | itfc, d :: ds =>
      if IsInterface c d then pairs (some d) ds
      else if IsEndpoint c d then (d, itfc) :: pairs itfc ds
      else pairs itfc ds

variable {c} {last : Nat} {epUsed : Nat → Bool} {ds : List Nat}

theorem not_endpoint_of_interface {d : Nat} (h : IsInterface c d) : ¬ IsEndpoint c d := by
  rw [IsEndpoint, h.1]
  decide

theorem pairs_fst (itfc : Option Nat) :
    (pairs c itfc ds).map Prod.fst = ds.filter fun d => decide (IsEndpoint c d) := by
  induction ds generalizing itfc with
  | nil => rfl
  | cons d ds ih =>
    unfold pairs
    split
    · rename_i hinterface
      rw [ih, List.filter_cons_of_neg (by simpa using not_endpoint_of_interface hinterface)]
    · split
      · rename_i hendpoint
        rw [List.map_cons, ih, List.filter_cons_of_pos (by simpa using hendpoint)]
      · rename_i hother
        rw [ih, List.filter_cons_of_neg (by simpa using hother)]

/-- The search of `USB_NextEndpoint` from a descriptor on finds the first pair. -/
theorem next_ends {first : Nat} (h : Tiles (lengthOf c) first ds last)
    (hlength : ∀ d ∈ ds, IsEndpoint c d → c.byte d = sizeofEndpoint) (itfc : Option Nat) :
    (pairs c itfc ds = [] → Ends (nextStep c last) (first, itfc) .none) ∧
    ∀ e i rest, pairs c itfc ds = (e, i) :: rest →
      Ends (nextStep c last) (first, itfc) (.found e i) ∧
      ∃ front back, ds = front ++ e :: back ∧ IsEndpoint c e ∧ pairs c i back = rest ∧
        ((i = itfc ∧ ∀ d ∈ front, ¬ IsInterface c d) ∨
          ∃ j ∈ front, i = some j ∧ IsInterface c j) := by
  induction h generalizing itfc with
  | nil last =>
    refine ⟨fun _ => .stop ?_, fun e i rest hpairs => absurd hpairs (by simp [pairs])⟩
    rw [nextStep, if_neg (Nat.lt_irrefl last)]
  | @cons first last ds hpos hrest ih =>
    have hlt : first < last := by
      have := hrest.le
      omega
    have hlength' := fun d hd => hlength d (List.mem_cons_of_mem first hd)
    by_cases hinterface : IsInterface c first
    · have hstep : nextStep c last (first, itfc) = .ok (first + lengthOf c first, some first) := by
        rw [nextStep, if_pos hlt]
        exact if_pos hinterface
      obtain ⟨hnone, hsome⟩ := ih hlength' (some first)
      rw [pairs, if_pos hinterface]
      refine ⟨fun h => .next hstep (hnone h), fun e i rest h => ?_⟩
      obtain ⟨hends, front, back, rfl, hendpoint, hback, hitfc⟩ := hsome e i rest h
      refine ⟨.next hstep hends, first :: front, back, rfl, hendpoint, hback, Or.inr ?_⟩
      rcases hitfc with ⟨rfl, -⟩ | ⟨j, hj, hitfc⟩
      · exact ⟨first, List.mem_cons_self, rfl, hinterface⟩
      · exact ⟨j, List.mem_cons_of_mem _ hj, hitfc⟩
    · by_cases hendpoint : IsEndpoint c first
      · have hstep : nextStep c last (first, itfc) = .error (.found first itfc) := by
          rw [nextStep, if_pos hlt]
          exact (if_neg hinterface).trans (if_pos ⟨hendpoint, hlength first List.mem_cons_self
            hendpoint⟩)
        rw [pairs, if_neg hinterface, if_pos hendpoint]
        refine ⟨fun h => absurd h (by simp), fun e i rest h => ?_⟩
        obtain ⟨heq, rfl⟩ := List.cons.inj h
        obtain ⟨rfl, rfl⟩ := Prod.mk.inj heq
        exact ⟨.stop hstep, [], ds, rfl, hendpoint, rfl, Or.inl ⟨rfl, by simp⟩⟩
      · have hstep : nextStep c last (first, itfc) = .ok (first + lengthOf c first, itfc) := by
          rw [nextStep, if_pos hlt]
          exact (if_neg hinterface).trans (if_neg fun h => hendpoint h.1)
        obtain ⟨hnone, hsome⟩ := ih hlength' itfc
        rw [pairs, if_neg hinterface, if_neg hendpoint]
        refine ⟨fun h => .next hstep (hnone h), fun e i rest h => ?_⟩
        obtain ⟨hends, front, back, rfl, hendpoint', hback, hitfc⟩ := hsome e i rest h
        refine ⟨.next hstep hends, first :: front, back, rfl, hendpoint', hback, ?_⟩
        rcases hitfc with ⟨rfl, hfront⟩ | ⟨j, hj, hitfc⟩
        · exact Or.inl ⟨rfl, List.forall_mem_cons.mpr ⟨hinterface, hfront⟩⟩
        · exact Or.inr ⟨j, List.mem_cons_of_mem _ hj, hitfc⟩

variable {q : Nat}

theorem usbNextEndpoint_of_ends {ep itfc : Option Nat} {start : Nat × Option Nat}
    {reply : NextReply}
    (hfind : Ends (findStep c USB_CONFIGURATION_DESCRIPTOR_MARKER none) 0 (.header (some q)))
    (hresume : resume c (q + sizeofConfiguration) (q + sizeOf c q) ep itfc = some start)
    (hends : Ends (nextStep c (q + sizeOf c q)) start reply) :
    ∃ fuel, usbNextEndpoint c fuel ep itfc = some reply := by
  obtain ⟨n, hn⟩ := hfind.exists_loop
  obtain ⟨m, hm⟩ := hends.exists_loop
  refine ⟨max n m, ?_⟩
  have hresume' : resume c (q + sizeofConfiguration) (q + c.word (q + 2)) ep itfc = some start :=
    hresume
  rw [usbNextEndpoint, usbFindRecord, hn _ (Nat.le_max_left n m)]
  dsimp only
  rw [hresume']
  exact hm _ (Nat.le_max_right n m)

theorem yields_pairs
    (hfind : Ends (findStep c USB_CONFIGURATION_DESCRIPTOR_MARKER none) 0 (.header (some q)))
    (h : Descriptors c (q + sizeofConfiguration) (q + sizeOf c q) epUsed ds)
    (hhead : ∀ d ∈ ds.head?, IsInterface c d) :
    ∀ (l : List (Nat × Option Nat)) (front back : List Nat) (start : Nat)
      (ep itfc itfc' : Option Nat), ds = front ++ back →
      resume c (q + sizeofConfiguration) (q + sizeOf c q) ep itfc = some (start, itfc') →
      Tiles (lengthOf c) start back (q + sizeOf c q) →
      (itfc' = none ∧ front = [] ∨ ∃ j ∈ front, itfc' = some j ∧ IsInterface c j) →
      pairs c itfc' back = l → Yields c ep itfc l := by
  intro l
  induction l with
  | nil =>
    intro front back start ep itfc itfc' hds hresume htiles _ hpairs
    have hlength : ∀ d ∈ back, IsEndpoint c d → c.byte d = sizeofEndpoint :=
      fun d hd => h.length d (hds ▸ List.mem_append_right front hd)
    obtain ⟨fuel, hfuel⟩ := usbNextEndpoint_of_ends hfind hresume
      ((next_ends htiles hlength itfc').1 hpairs)
    exact .stop hfuel
  | cons x l ih =>
    obtain ⟨e, i⟩ := x
    intro front back start ep itfc itfc' hds hresume htiles hitfc hpairs
    have hlength : ∀ d ∈ back, IsEndpoint c d → c.byte d = sizeofEndpoint :=
      fun d hd => h.length d (hds ▸ List.mem_append_right front hd)
    obtain ⟨hends, front', back', rfl, hendpoint, hback, hitfc'⟩ :=
      (next_ends htiles hlength itfc').2 e i l hpairs
    obtain ⟨fuel, hfuel⟩ := usbNextEndpoint_of_ends hfind hresume hends
    -- an interface comes first, so that there is one before the endpoint
    obtain ⟨j, hj, rfl, hinterface⟩ : ∃ j ∈ front ++ front', i = some j ∧ IsInterface c j := by
      rcases hitfc' with ⟨rfl, hnone⟩ | ⟨j, hj, hitfc'⟩
      · rcases hitfc with ⟨rfl, rfl⟩ | ⟨j, hj, hitfc⟩
        · cases front' with
          | nil =>
            exact absurd hendpoint (not_endpoint_of_interface (hhead e (by rw [hds]; rfl)))
          | cons d front' =>
            exact absurd (hhead d (by rw [hds]; rfl)) (hnone d List.mem_cons_self)
        · exact ⟨j, List.mem_append_left _ hj, hitfc⟩
      · exact ⟨j, List.mem_append_right _ hj, hitfc'⟩
    have hsplit : ds = (front ++ front') ++ e :: back' := by rw [hds, List.append_assoc]
    have hlength' : c.byte e = sizeofEndpoint := hlength e (by simp) hendpoint
    have hsize : lengthOf c e = sizeofEndpoint.toNat := congrArg UInt8.toNat hlength'
    refine .found hfuel (ih (front ++ front' ++ [e]) back' (e + sizeofEndpoint.toNat) _ _ (some j)
      ?_ ?_ ?_ (Or.inr ⟨j, List.mem_append_left _ hj, rfl, hinterface⟩) hback)
    · rw [hsplit]
      simp
    · have hjds := h.tiles.mem (hsplit ▸ List.mem_append_left (e :: back') hj)
      have heds := h.tiles.mem (hsplit ▸ List.mem_append_right (front ++ front')
        (List.mem_cons_self (a := e)))
      have hlt : j < e := by
        have hsorted := h.tiles.sorted
        rw [hsplit] at hsorted
        exact (List.pairwise_append.mp hsorted).2.2 j hj e List.mem_cons_self
      rw [resume, if_pos]
      exact ⟨by omega, by omega, hjds.1, by omega, hendpoint, hlength', hinterface⟩
    · obtain ⟨b, -, hrest⟩ := htiles.of_append
      cases hrest with
      | cons _ hrest => rwa [hsize] at hrest

theorem mem_pairs {itfc : Option Nat} (hsorted : ds.Pairwise (· < ·)) {e : Nat} {i : Option Nat} :
    (e, i) ∈ pairs c itfc ds ↔ e ∈ ds ∧ IsEndpoint c e ∧
      ((∃ j ∈ ds, i = some j ∧ IsInterface c j ∧ j < e ∧
          ∀ d ∈ ds, j < d → d < e → ¬ IsInterface c d) ∨
        (i = itfc ∧ ∀ d ∈ ds, d < e → ¬ IsInterface c d)) := by
  induction ds generalizing itfc with
  | nil => simp [pairs]
  | cons d ds ih =>
    obtain ⟨hfirst, hsorted⟩ := List.pairwise_cons.mp hsorted
    unfold pairs
    split
    · rename_i hinterface
      have hne := not_endpoint_of_interface hinterface
      rw [ih hsorted]
      grind
    · split
      · rename_i hother hendpoint
        rw [List.mem_cons, ih hsorted]
        grind
      · rename_i hother hother'
        rw [ih hsorted]
        grind

theorem Descriptors.mem_iff
    (h : Descriptors c (q + sizeofConfiguration) (q + sizeOf c q) epUsed ds) (hq : IsRecord c q)
    (hconfig : c.byte q = USB_CONFIGURATION_DESCRIPTOR_MARKER)
    (honly : ∀ r, IsRecord c r → c.byte r = USB_CONFIGURATION_DESCRIPTOR_MARKER → r = q) {d : Nat} :
    d ∈ ds ↔ IsDescriptor c d := by
  have hvisits : d ∈ ds ↔ Visits (lengthOf c) (fun d => q + sizeOf c q ≤ d)
      (q + sizeofConfiguration) d := by
    refine h.tiles.mem_iff_visits (Nat.le_refl _) fun y hy => ?_
    have := h.tiles.mem hy
    omega
  rw [hvisits]
  constructor
  · exact fun hd => ⟨q, hq, hconfig, hd⟩
  · rintro ⟨q', hq', hconfig', hd⟩
    obtain rfl := honly q' hq' hconfig'
    exact hd

/-- **The enumeration** of the endpoints is right exactly when no generic record lies before the
    configuration record. -/
theorem enumeratesEndpoints_iff (h : Accepted c) : EnumeratesEndpoints c ↔
    ∀ g q, IsRecord c g → c.byte g = USB_GENERIC_DESCRIPTOR_MARKER → IsRecord c q →
      c.byte q = USB_CONFIGURATION_DESCRIPTOR_MARKER → q < g := by
  obtain ⟨last, rs, hrecords, q, hq, ⟨hconfig, ds, hds, hhead⟩, honly⟩ := h.records
  have hq' : IsRecord c q := hrecords.mem_iff.mp hq
  have honly' : ∀ r, IsRecord c r → c.byte r = USB_CONFIGURATION_DESCRIPTOR_MARKER → r = q :=
    fun r hr => honly r (hrecords.mem_iff.mpr hr)
  obtain ⟨result, hends, hresult⟩ :=
    find_ends USB_CONFIGURATION_DESCRIPTOR_MARKER none hrecords
  have hwanted : ∀ r, IsRecord c r →
      (Wanted c USB_CONFIGURATION_DESCRIPTOR_MARKER none r ↔ r = q) := by
    intro r hr
    constructor
    · exact fun h => honly' r hr h.1
    · rintro rfl
      exact ⟨hconfig, Or.inr (Or.inl rfl)⟩
  have hway : ∀ r, InTheWay c USB_CONFIGURATION_DESCRIPTOR_MARKER none r ↔
      c.byte r = USB_GENERIC_DESCRIPTOR_MARKER := by
    intro r
    constructor
    · rintro (⟨h, -⟩ | ⟨-, h, -⟩)
      · exact h
      · exact absurd h (by decide)
    · exact fun h => Or.inl ⟨h, Or.inl rfl⟩
  rcases hresult with ⟨-, hall⟩ | ⟨p, hp, hall, ⟨hp', rfl⟩ | ⟨hp', hresult⟩⟩
  · exact absurd ((hwanted q hq').mpr rfl) (hall q hq).1
  · obtain rfl := (hwanted p (hrecords.mem_iff.mp hp)).mp hp'
    refine iff_of_true ?_ fun g q hg hgeneric hq hconfig => ?_
    · have hmem : ∀ d, d ∈ ds ↔ IsDescriptor c d := fun d => hds.mem_iff hq' hconfig honly'
      refine ⟨pairs c none ds, yields_pairs hends hds hhead _ [] ds _ none none none rfl rfl hds.tiles
        (Or.inl ⟨rfl, rfl⟩) rfl, ?_, fun e i => ?_, ?_⟩
      · rw [pairs_fst]
        exact hds.tiles.sorted.filter _
      · rw [mem_pairs hds.tiles.sorted, hmem]
        refine and_congr_right fun he => and_congr_right fun hendpoint => ?_
        constructor
        · rintro (⟨j, hj, rfl, hinterface, hlt, hbetween⟩ | ⟨rfl, hnone⟩)
          · exact ⟨j, rfl, (hmem j).mp hj, hinterface, hlt,
              fun d hd => hbetween d ((hmem d).mpr hd)⟩
          · cases ds with
            | nil => exact absurd ((hmem e).mpr he) (by simp)
            | cons first ds =>
              have hfirst := hhead first rfl
              have hne : e ≠ first := fun h => not_endpoint_of_interface hfirst (h ▸ hendpoint)
              have hlt := (List.pairwise_cons.mp hds.tiles.sorted).1 e
                (List.mem_of_ne_of_mem hne ((hmem e).mpr he))
              exact absurd hfirst (hnone first List.mem_cons_self hlt)
        · rintro ⟨j, rfl, hj, hinterface, hlt, hbetween⟩
          exact Or.inl ⟨j, (hmem j).mpr hj, rfl, hinterface, hlt,
            fun d hd => hbetween d ((hmem d).mp hd)⟩
      · have hnumbers : (pairs c none ds).map (fun x => numberOf c x.1) =
            ((pairs c none ds).map Prod.fst).map (numberOf c) := by
          rw [List.map_map]
          rfl
        rw [hnumbers, pairs_fst]
        exact hds.distinct
    · obtain rfl := honly' q hq hconfig
      rcases Nat.lt_trichotomy g q with hlt | rfl | hlt
      · exact absurd ((hway g).mpr hgeneric) (hall g (hrecords.mem_iff.mpr hg) hlt).2
      · exact absurd (hgeneric.symm.trans hconfig) (by decide)
      · exact hlt
  · obtain ⟨-, rfl⟩ := hresult.resolve_right fun h => h.1 rfl
    refine iff_of_false ?_ fun hfirst => ?_
    · rintro ⟨l, hyields, -⟩
      have hnull : ∀ fuel ep itfc, usbNextEndpoint c fuel ep itfc = none ∨
          usbNextEndpoint c fuel ep itfc = some .nullSetup := by
        intro fuel ep itfc
        unfold usbNextEndpoint usbFindRecord
        rcases hloop : loop (findStep c USB_CONFIGURATION_DESCRIPTOR_MARKER none) fuel 0 with _ | r
        · exact Or.inl rfl
        · obtain rfl := hends.unique (Ends.of_loop hloop)
          exact Or.inr rfl
      cases hyields with
      | stop h =>
        rcases hnull _ none none with h' | h' <;> exact absurd (h'.symm.trans h) (by simp)
      | found h _ =>
        rcases hnull _ none none with h' | h' <;> exact absurd (h'.symm.trans h) (by simp)
    · have hlt := hfirst p q (hrecords.mem_iff.mp hp) ((hway p).mp hp') hq' hconfig
      exact (hall q hq hlt).1 ((hwanted q hq').mpr rfl)

end Next

/-! ### All walks -/

/-- **Walks.**  The check ends and reads nothing outside exactly when it only comes to descriptors
    that fit; for what it accepts, a record is found exactly when no record gets in the way before
    it, and the endpoints are enumerated exactly when no generic record comes before the
    configuration. -/
theorem walks_iff (c : Configuration) :
    ((∃ fuel recordError, usbConfigurationCheck c fuel = some (.returned recordError)) ↔
      ∀ t, Reaches (checkStep c) (.records 0 false false) t → Fits c t) ∧
    ((∃ fuel, usbConfigurationCheck c fuel = some (.returned .ok)) →
      (∀ marker setup, FindsRecord c marker setup ↔ ∀ g, IsRecord c g →
        InTheWay c marker setup g → ∃ p, IsRecord c p ∧ p < g ∧ Wanted c marker setup p) ∧
      (EnumeratesEndpoints c ↔ ∀ g q, IsRecord c g → c.byte g = USB_GENERIC_DESCRIPTOR_MARKER →
        IsRecord c q → c.byte q = USB_CONFIGURATION_DESCRIPTOR_MARKER → q < g)) := by
  refine ⟨?_, fun haccepted => ?_⟩
  · rw [← check_ends_iff]
    constructor
    · rintro ⟨fuel, recordError, h⟩
      exact ⟨_, by simp, Ends.of_loop h⟩
    · rintro ⟨o, ho, hends⟩
      obtain ⟨fuel, h⟩ := ends_iff_loop.mp hends
      cases o with
      | returned recordError => exact ⟨fuel, recordError, h⟩
      | outside => exact absurd rfl ho
  · have h : Accepted c := ends_iff_loop.mpr haccepted
    exact ⟨findsRecord_iff h, enumeratesEndpoints_iff h⟩

/-- A byte sequence, with zeros behind it -/
def Configuration.ofBytes (bytes : List UInt8) : Configuration :=
  ⟨fun p => bytes.getD p 0, bytes.length⟩

/-- A device record, and a configuration record with an interface and one endpoint -/
def smallBytes : List UInt8 :=
  [1, 0, 22, 0, 18, 1, 0, 2, 0, 0, 0, 8, 0, 0, 0, 0, 0, 0, 0, 0, 0, 1,
    2, 0, 29, 0, 9, 2, 25, 0, 1, 1, 0, 0x80, 50, 9, 4, 0, 0, 1, 0, 0, 0, 0, 7, 5, 0x81, 2, 64, 0, 0,
    0, 0, 4, 0]

theorem walks_iff_small : EnumeratesEndpoints (.ofBytes smallBytes) := by
  refine ((walks_iff (.ofBytes smallBytes)).2 ⟨8, rfl⟩).2.mpr fun g q _ hgeneric _ _ => ?_
  have hnone : ∀ value ∈ smallBytes, value ≠ USB_GENERIC_DESCRIPTOR_MARKER := by decide +kernel
  have hbyte : (Configuration.ofBytes smallBytes).byte g = smallBytes.getD g 0 := rfl
  rw [hbyte] at hgeneric
  rcases Nat.lt_or_ge g smallBytes.length with hlt | hge
  · rw [List.getD_eq_getElem?_getD, List.getElem?_eq_getElem hlt] at hgeneric
    exact absurd hgeneric (hnone _ (List.getElem_mem hlt))
  · rw [List.getD_eq_getElem?_getD, List.getElem?_eq_none hge] at hgeneric
    exact absurd hgeneric (by decide)

/-- A configuration record with an interface, and a class descriptor of length 0 -/
def emptyClass : Configuration := .ofBytes
  [2, 0, 24, 0, 9, 2, 20, 0, 1, 1, 0, 0x80, 50, 9, 4, 0, 0, 1, 0xFF, 0, 0, 0, 0, 0x24]

/-- The check goes on for ever at a class descriptor without a length. -/
theorem check_never_ends : ¬ ∃ fuel outcome,
    usbConfigurationCheck emptyClass fuel = some outcome := by
  rintro ⟨fuel, outcome, h⟩
  have hrecord : checkStep emptyClass (.records 0 false false) = .ok (.interfaces
      ⟨24, false, 1, List.replicate 10 0xFF, fun _ => false⟩ 13) := rfl
  have hinterface : checkStep emptyClass (.interfaces
      ⟨24, false, 1, List.replicate 10 0xFF, fun _ => false⟩ 13) = .ok (.classes
      ⟨24, false, 0, 0 :: List.replicate 9 0xFF, fun _ => false⟩ .ok 1 22) := rfl
  have hclass : checkStep emptyClass (.classes
      ⟨24, false, 0, 0 :: List.replicate 9 0xFF, fun _ => false⟩ .ok 1 22) = .ok (.classes
      ⟨24, false, 0, 0 :: List.replicate 9 0xFF, fun _ => false⟩ .ok 1 22) := rfl
  exact not_ends_of_self hclass (((Ends.of_loop h).step_ok hrecord).step_ok hinterface)

end TinyClr.UsbConfiguration
