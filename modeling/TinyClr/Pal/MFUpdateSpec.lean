import TinyClr.Library.Runs
import TinyClr.Pal.MFUpdate

/-!
# What the calls on updates keep

The flags of a slot are tied to the history of its update: an authenticated one has last been
authenticated successfully, a validated one has been validated.  A call changes the slot of its own
handle only; setting up an update may also clear slots that have become stale.
-/

namespace TinyClr.MFUpdate

open TinyClr.Library

/-! ### Histories -/

def Mark.slot : Mark → Nat
  | .set handle => handle
  | .authenticated handle _ => handle
  | .wrote handle => handle
  | .validated handle _ => handle
  | .installed handle _ => handle

def historyOf (handle : Nat) (history : History) : History :=
  history.filter fun event => event.slot = handle

/-- How the last authentication of the update has ended -/
def lastAuthentication : History → Option Bool
  | [] => none
  | .set _ :: _ => none
  | .authenticated _ ok :: _ => some ok
  | .wrote _ :: rest => lastAuthentication rest
  | .validated _ _ :: rest => lastAuthentication rest
  | .installed _ _ :: rest => lastAuthentication rest

def WasValidated : History → Prop
  | [] => False
  | .set _ :: _ => False
  | .validated _ _ :: _ => True
  | .authenticated _ _ :: rest => WasValidated rest
  | .wrote _ :: rest => WasValidated rest
  | .installed _ _ :: rest => WasValidated rest

/-- No validation of the update has failed, and none of its packets came after a validation. -/
def Straight : History → Prop
  | [] => True
  | .set _ :: _ => True
  | .validated _ ok :: rest => ok = true ∧ Straight rest
  | .wrote _ :: rest => ¬ WasValidated rest ∧ Straight rest
  | .authenticated _ _ :: rest => Straight rest
  | .installed _ _ :: rest => Straight rest

/-- A validation has succeeded after the last packet. -/
def ValidatedAsIs : History → Prop
  | [] => False
  | .set _ :: _ => False
  | .validated _ ok :: _ => ok = true
  | .wrote _ :: _ => False
  | .authenticated _ _ :: rest => ValidatedAsIs rest
  | .installed _ _ :: rest => ValidatedAsIs rest

variable {history : History}

theorem validatedAsIs_of_straight (hstraight : Straight history)
    (hvalidated : WasValidated history) : ValidatedAsIs history := by
  induction history with
  | nil => exact hvalidated
  | cons event rest ih =>
    cases event with
    | set handle => exact hvalidated
    | authenticated handle ok => exact ih hstraight hvalidated
    | wrote handle => exact absurd hvalidated hstraight.1
    | validated handle ok => exact hstraight.1
    | installed handle validates => exact ih hstraight hvalidated

/-- Every installation in one of the four slots follows a successful last authentication, and with a
    straight history also a validation of what is installed, if the provider can validate. -/
def Authorised (history : History) : Prop :=
  ∀ after handle validates before,
    history = after ++ .installed handle validates :: before → handle < arraySize →
    lastAuthentication (historyOf handle before) = some true ∧
    (validates = true → Straight (historyOf handle before) →
      ValidatedAsIs (historyOf handle before))

variable {event : Mark}

theorem historyOf_cons_self :
    historyOf event.slot (event :: history) = event :: historyOf event.slot history := by
  rw [historyOf, List.filter_cons, if_pos (decide_eq_true rfl)]
  rfl

theorem historyOf_cons_of_ne {handle : Nat}
    (h : event.slot ≠ handle) : historyOf handle (event :: history) = historyOf handle history := by
  rw [historyOf, List.filter_cons, if_neg (by simpa using h)]
  rfl

theorem Authorised.cons {event : Mark} {history : History} (h : Authorised history)
    (hevent : ∀ handle validates, event = .installed handle validates → handle < arraySize →
      lastAuthentication (historyOf handle history) = some true ∧
      (validates = true → Straight (historyOf handle history) →
        ValidatedAsIs (historyOf handle history))) : Authorised (event :: history) := by
  intro after handle validates before heq hhandle
  cases after with
  | nil =>
    obtain ⟨rfl, rfl⟩ := List.cons.inj heq
    exact hevent handle validates rfl hhandle
  | cons first after =>
    obtain ⟨-, hrest⟩ := List.cons.inj heq
    exact h after handle validates before hrest hhandle

/-! ### Slots -/

section Slots

variable {W : Type} (packages : List (Package W))

structure Tracked (update : Update) (history : History) : Prop where
  inUse : update.flags.inUse = true
  authenticated : update.flags.authenticated = true → lastAuthentication history = some true
  validated : update.flags.validated = true →
    ∀ package, providersOf packages update = some package →
    (validateUpdateOf package).isSome → WasValidated history

/-- The invariant of the four slots -/
structure Inv (s : System W) : Prop where
  slots : ∀ i < arraySize, s.updates i = Update.zero ∨
    Tracked packages (s.updates i) (historyOf i s.history)
  authorised : Authorised s.history
  fresh : s.updatesInitialized = false → ∀ i < arraySize, s.updates i = Update.zero

variable {packages} {s s' : System W} {handle : Nat} {update : Update}

theorem getUpdate_eq_some {updateHandle : Int}
    (h : s.getUpdate updateHandle = some (handle, update)) :
    updateHandle = handle ∧ handle ≤ arraySize ∧ s.updates handle = update ∧
      update.flags.inUse = true := by
  unfold System.getUpdate at h
  split at h
  · exact absurd h (by simp)
  · rename_i hrange
    split at h
    · rename_i hinUse
      obtain ⟨rfl, rfl⟩ := Prod.mk.inj (Option.some.inj h)
      unfold arraySize at hrange ⊢
      exact ⟨by omega, by omega, rfl, hinUse⟩
    · exact absurd h (by simp)

theorem set_self : (s.set handle update).updates handle = update := Function.update_self _ _ _

theorem set_of_ne {i : Nat} (h : i ≠ handle) : (s.set handle update).updates i = s.updates i :=
  Function.update_of_ne h _ _

theorem set_set (update' : Update) :
    (s.set handle update).set handle update' = s.set handle update' := by
  rw [System.set, System.set, System.set, Function.update_idem]

variable {update' : Update}

theorem getUpdate_set {updateHandle : Int} (h : s.getUpdate updateHandle = some (handle, update))
    (hinUse : update'.flags.inUse = true) :
    (s.set handle update').getUpdate updateHandle = some (handle, update') := by
  obtain ⟨rfl, hle, -, -⟩ := getUpdate_eq_some h
  have hself : (s.set handle update').updates (handle : Int).toNat = update' := set_self
  rw [System.getUpdate, if_neg (by omega), hself, if_pos hinUse, Int.toNat_natCast]

theorem Tracked.congr
    (h : Tracked packages update history) (hflags : update'.flags = update.flags)
    (hproviders : update'.providers = update.providers) : Tracked packages update' history := by
  have hsame : providersOf packages update' = providersOf packages update := by
    rw [providersOf, providersOf, hproviders]
  refine ⟨hflags ▸ h.inUse, hflags ▸ h.authenticated, ?_⟩
  rw [hflags, hsame]
  exact h.validated

theorem Tracked.cons {event : Mark} {history : History} (h : Tracked packages update history)
    (hauthentication : lastAuthentication (event :: history) = lastAuthentication history)
    (hvalidated : WasValidated history → WasValidated (event :: history)) :
    Tracked packages update (event :: history) :=
  ⟨h.inUse, fun ha => hauthentication.trans (h.authenticated ha),
    fun hv package hp hsome => hvalidated (h.validated hv package hp hsome)⟩

namespace Inv

theorem tracked (hs : Inv packages s) (hinUse : (s.updates handle).flags.inUse = true)
    (hhandle : handle < arraySize) :
    Tracked packages (s.updates handle) (historyOf handle s.history) := by
  refine (hs.slots handle hhandle).resolve_left fun hzero => ?_
  rw [hzero] at hinUse
  exact absurd hinUse (by decide)

theorem world (hs : Inv packages s) (w : W) : Inv packages { s with world := w } :=
  ⟨hs.slots, hs.authorised, hs.fresh⟩

theorem set (hs : Inv packages s) (hinUse : (s.updates handle).flags.inUse = true)
    (hupdate : handle < arraySize → update = Update.zero ∨
      Tracked packages update (historyOf handle s.history)) :
    Inv packages (s.set handle update) := by
  refine ⟨fun i hi => ?_, hs.authorised, fun hfresh i hi => ?_⟩
  · by_cases hne : i = handle
    · subst hne
      rw [set_self]
      exact hupdate hi
    · rw [set_of_ne hne]
      exact hs.slots i hi
  · by_cases hne : i = handle
    · subst hne
      have hzero := hs.fresh hfresh i hi
      rw [hzero] at hinUse
      exact absurd hinUse (by decide)
    · rw [set_of_ne hne]
      exact hs.fresh hfresh i hi

theorem set_mark (hs : Inv packages s)
    (hinUse : (s.updates handle).flags.inUse = true) (hslot : event.slot = handle)
    (htracked : handle < arraySize →
      Tracked packages update (event :: historyOf handle s.history))
    (hevent : ∀ validates, event = .installed handle validates → handle < arraySize →
      lastAuthentication (historyOf handle s.history) = some true ∧
      (validates = true → Straight (historyOf handle s.history) →
        ValidatedAsIs (historyOf handle s.history))) :
    Inv packages ((s.set handle update).mark event) := by
  refine ⟨fun i hi => ?_, hs.authorised.cons fun i validates heq hi => ?_, fun hfresh i hi => ?_⟩
  · show (s.set handle update).updates i = _ ∨
      Tracked packages ((s.set handle update).updates i) (historyOf i (event :: s.history))
    by_cases hne : i = handle
    · subst hne
      have hcons : historyOf i (event :: s.history) = event :: historyOf i s.history := by
        rw [← hslot]
        exact historyOf_cons_self
      rw [hcons, set_self]
      exact Or.inr (htracked hi)
    · rw [historyOf_cons_of_ne (by rw [hslot]; exact Ne.symm hne), set_of_ne hne]
      exact hs.slots i hi
  · have hsame : handle = i := by rw [← hslot, heq]; rfl
    subst hsame
    exact hevent validates heq hi
  · show (s.set handle update).updates i = _
    by_cases hne : i = handle
    · subst hne
      have hzero := hs.fresh hfresh i hi
      rw [hzero] at hinUse
      exact absurd hinUse (by decide)
    · rw [set_of_ne hne]
      exact hs.fresh hfresh i hi

theorem release (hs : Inv packages s) {updateHandle : Int}
    (hget : s.getUpdate updateHandle = some (handle, update)) :
    Inv packages (s.releaseUpdateHandle updateHandle) ∧
      ∀ i, i ≠ handle → (s.releaseUpdateHandle updateHandle).updates i = s.updates i := by
  obtain ⟨rfl, hle, rfl, hinUse⟩ := getUpdate_eq_some hget
  have heq : s.releaseUpdateHandle (handle : Int) = s.set handle Update.zero := by
    rw [System.releaseUpdateHandle, if_neg (by omega), Int.toNat_natCast]
  rw [heq]
  exact ⟨hs.set hinUse fun _ => Or.inl rfl, fun i hi => set_of_ne hi⟩

end Inv

/-! ### Calls -/

/-- What a call with a handle leaves: the invariant, and every other slot -/
structure Kept (packages : List (Package W)) (updateHandle : Int) (s s' : System W) : Prop where
  inv : Inv packages s'
  others : ∀ i : Nat, (i : Int) ≠ updateHandle → s'.updates i = s.updates i

variable {updateHandle : Int} {reply : Reply}

theorem Kept.refl (hs : Inv packages s) : Kept packages updateHandle s s := ⟨hs, fun _ _ => rfl⟩

theorem Kept.of_unchanged {r : Reply} (hs : Inv packages s) (h : some (s, r) = some (s', reply)) :
    Kept packages updateHandle s s' := by
  obtain ⟨rfl, -⟩ := Prod.mk.inj (Option.some.inj h)
  exact Kept.refl hs

theorem Kept.world (hs : Inv packages s) (w : W) :
    Kept packages updateHandle s { s with world := w } := ⟨hs.world w, fun _ _ => rfl⟩

theorem Kept.trans {s'' : System W} (h : Kept packages updateHandle s s')
    (h' : Kept packages updateHandle s' s'') : Kept packages updateHandle s s'' :=
  ⟨h'.inv, fun i hi => (h'.others i hi).trans (h.others i hi)⟩

section Handle

variable (hs : Inv packages s) (hget : s.getUpdate updateHandle = some (handle, update))

include hs hget

theorem Kept.set (hupdate : handle < arraySize → update' = Update.zero ∨
      Tracked packages update' (historyOf handle s.history)) :
    Kept packages updateHandle s (s.set handle update') := by
  obtain ⟨rfl, -, rfl, hinUse⟩ := getUpdate_eq_some hget
  exact ⟨hs.set hinUse hupdate, fun i hi => set_of_ne fun h => hi (congrArg Nat.cast h)⟩

theorem Kept.release : Kept packages updateHandle s (s.releaseUpdateHandle updateHandle) := by
  obtain ⟨hinv, hothers⟩ := hs.release hget
  obtain ⟨rfl, -⟩ := getUpdate_eq_some hget
  exact ⟨hinv, fun i hi => hothers i fun h => hi (congrArg Nat.cast h)⟩

theorem Kept.set_mark (hslot : event.slot = handle)
    (htracked : handle < arraySize →
      Tracked packages update' (event :: historyOf handle s.history))
    (hevent : ∀ validates, event = .installed handle validates → handle < arraySize →
      lastAuthentication (historyOf handle s.history) = some true ∧
      (validates = true → Straight (historyOf handle s.history) →
        ValidatedAsIs (historyOf handle s.history))) :
    Kept packages updateHandle s ((s.set handle update').mark event) := by
  obtain ⟨rfl, -, rfl, hinUse⟩ := getUpdate_eq_some hget
  exact ⟨hs.set_mark hinUse hslot htracked hevent,
    fun i hi => set_of_ne fun h => hi (congrArg Nat.cast h)⟩

theorem Kept.mark (hslot : event.slot = handle)
    (htracked : handle < arraySize →
      Tracked packages update (event :: historyOf handle s.history))
    (hevent : ∀ validates, event = .installed handle validates → handle < arraySize →
      lastAuthentication (historyOf handle s.history) = some true ∧
      (validates = true → Straight (historyOf handle s.history) →
        ValidatedAsIs (historyOf handle s.history))) :
    Kept packages updateHandle s (s.mark event) := by
  have hkept := Kept.set_mark hs hget hslot htracked hevent
  obtain ⟨-, -, rfl, -⟩ := getUpdate_eq_some hget
  have hsame : s.set handle (s.updates handle) = s := by
    rw [System.set, Function.update_eq_self]
  rwa [hsame] at hkept

theorem tracked_update (hhandle : handle < arraySize) :
    Tracked packages update (historyOf handle s.history) := by
  obtain ⟨-, -, rfl, hinUse⟩ := getUpdate_eq_some hget
  exact hs.tracked hinUse hhandle

end Handle

theorem authCommand_kept (hs : Inv packages s) {cmd : Nat} {pArgs : Data}
    (h : authCommand packages s updateHandle cmd pArgs = some (s', reply)) :
    Kept packages updateHandle s s' := by
  unfold authCommand at h
  split at h
  · exact Kept.of_unchanged hs h
  · split at h
    · exact absurd h (by simp)
    · split at h
      · exact Kept.of_unchanged hs h
      · split at h
        · exact Kept.of_unchanged hs h
        · obtain ⟨rfl, -⟩ := Prod.mk.inj (Option.some.inj h)
          exact Kept.world hs _

theorem authenticate_kept (hs : Inv packages s) {pAuthData : Data}
    (h : authenticate packages s updateHandle pAuthData = some (s', reply)) :
    Kept packages updateHandle s s' := by
  unfold authenticate at h
  split at h
  · exact Kept.of_unchanged hs h
  · rename_i handle update hget
    split at h
    · exact absurd h (by simp)
    · split at h
      · exact Kept.of_unchanged hs h
      · split at h
        · exact Kept.of_unchanged hs h
        · rename_i authenticate _
          generalize authenticate update pAuthData s.world = result at h
          obtain ⟨fRet, world⟩ := result
          obtain ⟨rfl, -⟩ := Prod.mk.inj (Option.some.inj h)
          have hget' : ({ s with world := world } : System W).getUpdate updateHandle =
              some (handle, update) := hget
          refine (Kept.world hs world).trans
            (Kept.set_mark (hs.world world) hget' rfl (fun hhandle => ?_) fun _ h => by simp at h)
          have htracked := tracked_update hs hget hhandle
          exact ⟨htracked.inUse, fun hok => congrArg some hok, htracked.validated⟩

theorem openUpdate_kept (hs : Inv packages s)
    (h : openUpdate packages s updateHandle = some (s', reply)) :
    Kept packages updateHandle s s' := by
  unfold openUpdate at h
  split at h
  · exact Kept.of_unchanged hs h
  · rename_i handle update hget
    have htracked : ∀ update' : Update, update'.flags = update.flags →
        update'.providers = update.providers → handle < arraySize → update' = Update.zero ∨
          Tracked packages update' (historyOf handle s.history) :=
      fun update' hflags hproviders hhandle =>
        Or.inr ((tracked_update hs hget hhandle).congr hflags hproviders)
    split at h
    · exact absurd h (by simp)
    · split at h
      · exact Kept.of_unchanged hs h
      · split at h
        · exact Kept.of_unchanged hs h
        · split at h
          · exact Kept.of_unchanged hs h
          · split at h
            · exact absurd h (by simp)
            · rename_i openUpdate _
              generalize openUpdate MFUPDATE_UPDATEID_ANY update.header.updateType
                update.header.updateSubType s.world = result at h
              obtain ⟨storageHandle, world⟩ := result
              dsimp only at h
              have hget₁ : ({ s with world := world } : System W).getUpdate updateHandle =
                  some (handle, update) := hget
              have hset : Kept packages updateHandle s (({ s with world := world } : System W).set
                  handle { update with storageHandle := storageHandle }) :=
                (Kept.world hs world).trans
                  (Kept.set (hs.world world) hget₁ (htracked _ rfl rfl))
              split at h
              · obtain ⟨rfl, -⟩ := Prod.mk.inj (Option.some.inj h)
                exact hset
              · split at h
                · exact absurd h (by simp)
                · rename_i getHeader _
                  generalize getHeader storageHandle _ = result at h
                  obtain ⟨⟨found, header⟩, world₂⟩ := result
                  dsimp only at h
                  split at h
                  · split at h
                    · exact absurd h (by simp)
                    · obtain ⟨rfl, -⟩ := Prod.mk.inj (Option.some.inj h)
                      exact hset.trans (Kept.world hset.inv _)
                  · obtain ⟨rfl, -⟩ := Prod.mk.inj (Option.some.inj h)
                    have hinUse : ({ update with storageHandle := storageHandle } :
                        Update).flags.inUse = true := (getUpdate_eq_some hget).2.2.2
                    have hget₂ := getUpdate_set hget₁ hinUse
                    refine hset.trans ((Kept.world hset.inv world₂).trans
                      (Kept.set (hset.inv.world world₂) hget₂ (htracked _ rfl rfl)))

theorem create_kept (hs : Inv packages s)
    (h : create packages s updateHandle = some (s', reply)) : Kept packages updateHandle s s' := by
  unfold create at h
  split at h
  · exact Kept.of_unchanged hs h
  · rename_i handle update hget
    split at h
    · exact absurd h (by simp)
    · split at h
      · exact Kept.of_unchanged hs h
      · split at h
        · exact Kept.of_unchanged hs h
        · split at h
          · exact Kept.of_unchanged hs h
          · split at h
            · exact absurd h (by simp)
            · rename_i initializeUpdate _
              generalize initializeUpdate update s.world = result at h
              obtain ⟨ok, world⟩ := result
              dsimp only at h
              have hget₁ : ({ s with world := world } : System W).getUpdate updateHandle =
                  some (handle, update) := hget
              have hworld : Kept packages updateHandle s { s with world := world } :=
                Kept.world hs world
              split at h
              · obtain ⟨rfl, -⟩ := Prod.mk.inj (Option.some.inj h)
                exact hworld.trans (Kept.release hworld.inv hget₁)
              · split at h
                · exact absurd h (by simp)
                · rename_i create _
                  generalize create update.header update.flags world = result at h
                  obtain ⟨storageHandle, world₂⟩ := result
                  dsimp only at h
                  have hget₂ : ({ s with world := world₂ } : System W).getUpdate updateHandle =
                      some (handle, update) := hget
                  have hset : Kept packages updateHandle s (({ s with world := world₂ } :
                      System W).set handle { update with storageHandle := storageHandle }) :=
                    (Kept.world hs world₂).trans (Kept.set (hs.world world₂) hget₂ fun hhandle =>
                      Or.inr ((tracked_update hs hget hhandle).congr rfl rfl))
                  split at h
                  · obtain ⟨rfl, -⟩ := Prod.mk.inj (Option.some.inj h)
                    refine hset.trans (Kept.release hset.inv (getUpdate_set hget₂ ?_))
                    exact (getUpdate_eq_some hget).2.2.2
                  · obtain ⟨rfl, -⟩ := Prod.mk.inj (Option.some.inj h)
                    exact hset

variable {pValidationData : Data}

theorem addPacket_kept (hs : Inv packages s) {packetIndex : Int} {packetData : Data}
    (h : addPacket packages s updateHandle packetIndex packetData pValidationData =
      some (s', reply)) : Kept packages updateHandle s s' := by
  unfold addPacket at h
  split at h
  · exact Kept.of_unchanged hs h
  · rename_i handle update hget
    split at h
    · exact absurd h (by simp)
    · rename_i package _
      split at h
      · exact Kept.of_unchanged hs h
      · split at h
        · exact Kept.of_unchanged hs h
        · generalize validatePacketOf package update packetData pValidationData s.world = result
            at h
          obtain ⟨ok, world⟩ := result
          dsimp only at h
          split at h
          · obtain ⟨rfl, -⟩ := Prod.mk.inj (Option.some.inj h)
            exact Kept.world hs world
          · split at h
            · exact absurd h (by simp)
            · rename_i write _
              generalize write update.storageHandle _ packetData world = result at h
              obtain ⟨written, world₂⟩ := result
              obtain ⟨rfl, -⟩ := Prod.mk.inj (Option.some.inj h)
              have hget₂ : ({ s with world := world₂ } : System W).getUpdate updateHandle =
                  some (handle, update) := hget
              refine (Kept.world hs world₂).trans
                (Kept.mark (hs.world world₂) hget₂ rfl (fun hhandle => ?_) fun _ h => by simp at h)
              exact (tracked_update hs hget hhandle).cons rfl id

theorem delete_kept (hs : Inv packages s)
    (h : delete packages s updateHandle = some (s', reply)) : Kept packages updateHandle s s' := by
  unfold delete at h
  split at h
  · exact Kept.of_unchanged hs h
  · rename_i handle update hget
    split at h
    · exact absurd h (by simp)
    · split at h
      · exact Kept.of_unchanged hs h
      · rename_i storage _
        split at h
        · exact Kept.of_unchanged hs h
        · generalize deleteFrom storage update s.world = result at h
          obtain ⟨fRet, world⟩ := result
          obtain ⟨rfl, -⟩ := Prod.mk.inj (Option.some.inj h)
          have hget₁ : ({ s with world := world } : System W).getUpdate updateHandle =
              some (handle, update) := hget
          exact (Kept.world hs world).trans (Kept.release (hs.world world) hget₁)

theorem askProvider_kept (hs : Inv packages s)
    (hget : s.getUpdate updateHandle = some (handle, update)) {package : Package W}
    {ok : Bool}
    (h : askProvider package s handle update pValidationData = (ok, s')) :
    Kept packages updateHandle s s' ∧
      (∃ update', s'.getUpdate updateHandle = some (handle, update') ∧
        update'.flags = { update.flags with validated := update'.flags.validated } ∧
        update'.providers = update.providers) ∧
      ((validateUpdateOf package).isSome → WasValidated (historyOf handle s'.history)) := by
  obtain ⟨-, -, -, hinUse⟩ := getUpdate_eq_some hget
  unfold askProvider at h
  split at h
  · rename_i hnone
    obtain ⟨rfl, rfl⟩ := Prod.mk.inj h
    exact ⟨Kept.refl hs, ⟨update, hget, rfl, rfl⟩, fun hsome => by simp [hnone] at hsome⟩
  · rename_i validateUpdate _
    generalize validateUpdate update pValidationData s.world = result at h
    obtain ⟨fValid, world⟩ := result
    obtain ⟨rfl, rfl⟩ := Prod.mk.inj h
    have hget₁ : ({ s with world := world } : System W).getUpdate updateHandle =
        some (handle, update) := hget
    have hwas : WasValidated (historyOf handle (.validated handle fValid :: s.history)) := by
      rw [show historyOf handle (.validated handle fValid :: s.history) =
        .validated handle fValid :: historyOf handle s.history from historyOf_cons_self]
      trivial
    refine ⟨(Kept.world hs world).trans (Kept.set_mark (hs.world world) hget₁ rfl
      (fun hhandle => ?_) fun _ h => by simp at h), ⟨_, getUpdate_set hget₁ hinUse, rfl, rfl⟩,
      fun _ => hwas⟩
    have htracked := tracked_update hs hget hhandle
    exact ⟨hinUse, htracked.authenticated, fun _ _ _ _ => trivial⟩

theorem closeStorage_kept (hs : Inv packages s) (updateHandle : Int) (package : Package W)
    (update : Update) :
    Kept packages updateHandle s (closeStorage package s update) ∧
      (closeStorage package s update).getUpdate updateHandle = s.getUpdate updateHandle ∧
      (closeStorage package s update).history = s.history := by
  unfold closeStorage
  split
  · exact ⟨Kept.refl hs, rfl, rfl⟩
  · split
    · exact ⟨Kept.refl hs, rfl, rfl⟩
    · exact ⟨Kept.world hs _, rfl, rfl⟩

theorem validate_kept (hs : Inv packages s) {ok : Bool}
    (h : validate packages s updateHandle pValidationData = some (s', ok)) :
    Kept packages updateHandle s s' ∧ (ok = true → ∃ handle update,
      s'.getUpdate updateHandle = some (handle, update) ∧ update.flags.authenticated = true ∧
      update.flags.validated = true) := by
  unfold validate at h
  split at h
  · obtain ⟨rfl, rfl⟩ := Prod.mk.inj (Option.some.inj h)
    exact ⟨Kept.refl hs, fun h => absurd h (by decide)⟩
  · rename_i handle update hget
    split at h
    · obtain ⟨rfl, rfl⟩ := Prod.mk.inj (Option.some.inj h)
      exact ⟨Kept.refl hs, fun h => absurd h (by decide)⟩
    · rename_i hauth
      split at h
      · rename_i hvalidated
        obtain ⟨rfl, rfl⟩ := Prod.mk.inj (Option.some.inj h)
        exact ⟨Kept.refl hs, fun _ => ⟨handle, update, hget, by simpa using hauth, hvalidated⟩⟩
      · split at h
        · exact absurd h (by simp)
        · rename_i package hpackage
          generalize hask : askProvider package s handle update pValidationData = result at h
          obtain ⟨fValid, s₁⟩ := result
          obtain ⟨rfl, rfl⟩ := Prod.mk.inj (Option.some.inj h)
          obtain ⟨hasked, ⟨update₁, hget₁, hflags, hproviders⟩, hwas⟩ := askProvider_kept hs hget hask
          obtain ⟨hclosed, hget₂, hhistory⟩ := closeStorage_kept hasked.inv updateHandle package update
          have hauth₁ : update.flags.authenticated = true := by simpa using hauth
          have hinUse := (getUpdate_eq_some hget).2.2.2
          refine ⟨hasked.trans (hclosed.trans (Kept.set hclosed.inv (hget₂.trans hget₁)
            fun hhandle => Or.inr ⟨hinUse, fun _ => ?_, fun _ package' hpackage' hsome => ?_⟩)),
            fun _ => ⟨handle, _, getUpdate_set (hget₂.trans hget₁) hinUse, hauth₁, rfl⟩⟩
          · rw [hhistory]
            exact (tracked_update hasked.inv hget₁ hhandle).authenticated
              (by rw [hflags]; exact hauth₁)
          · obtain rfl : package = package' := Option.some.inj (hpackage.symm.trans hpackage')
            rw [hhistory]
            exact hwas hsome

theorem install_kept (hs : Inv packages s)
    (h : install packages s updateHandle pValidationData = some (s', reply)) :
    Kept packages updateHandle s s' := by
  unfold install at h
  split at h
  · exact Kept.of_unchanged hs h
  · rename_i handle update hget
    split at h
    · exact Kept.of_unchanged hs h
    · rename_i hauth
      have hauth₁ : update.flags.authenticated = true := by simpa using hauth
      generalize hvalidated : (if update.flags.validated then some (s, true)
        else validate packages s updateHandle pValidationData : Option (System W × Bool)) = result
        at h
      have hready : ∀ s₁ ok, result = some (s₁, ok) → Kept packages updateHandle s s₁ ∧
          (ok = true → ∃ handle update, s₁.getUpdate updateHandle = some (handle, update) ∧
            update.flags.authenticated = true ∧ update.flags.validated = true) := by
        rintro s₁ ok rfl
        split at hvalidated
        · rename_i hflag
          obtain ⟨rfl, rfl⟩ := Prod.mk.inj (Option.some.inj hvalidated)
          exact ⟨Kept.refl hs, fun _ => ⟨handle, update, hget, hauth₁, hflag⟩⟩
        · exact validate_kept hs hvalidated
      dsimp only at h
      split at h
      · exact absurd h (by simp)
      · obtain ⟨rfl, -⟩ := Prod.mk.inj (Option.some.inj h)
        exact (hready _ _ rfl).1
      · rename_i s₁
        obtain ⟨hkept, hflags⟩ := hready _ _ rfl
        obtain ⟨handle', update₁, hget₁, hauthenticated, hvalid⟩ := hflags rfl
        obtain rfl : handle = handle' := by
          have := (getUpdate_eq_some hget).1
          have := (getUpdate_eq_some hget₁).1
          omega
        obtain ⟨-, -, rfl, hinUse⟩ := getUpdate_eq_some hget₁
        split at h
        · exact absurd h (by simp)
        · rename_i package hpackage
          split at h
          · exact absurd h (by simp)
          · split at h
            · exact absurd h (by simp)
            · rename_i installUpdate _
              generalize installUpdate (s₁.updates handle) pValidationData s₁.world = result at h
              obtain ⟨ok, world⟩ := result
              obtain ⟨rfl, -⟩ := Prod.mk.inj (Option.some.inj h)
              refine hkept.trans ((Kept.world hkept.inv world).trans
                (Kept.mark (hkept.inv.world world) hget₁ rfl (fun hhandle => ?_)
                  fun validates hevent hhandle => ?_))
              · exact (tracked_update hkept.inv hget₁ hhandle).cons rfl id
              · have htracked := tracked_update hkept.inv hget₁ hhandle
                refine ⟨htracked.authenticated hauthenticated, fun hvalidates hstraight => ?_⟩
                refine validatedAsIs_of_straight hstraight
                  (htracked.validated hvalid package hpackage ?_)
                rw [← hvalidates]
                simpa using hevent

end Slots

end TinyClr.MFUpdate
