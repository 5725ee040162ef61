import TinyClr.Pal.MFUpdateSpec

/-!
# Updates over whole runs

Whatever calls come in whatever order, an update is only installed after a successful
authentication, calls with other handles leave its slot alone, and only an update that has become
stale gives its slot to a new one.
-/

namespace TinyClr.MFUpdate

open TinyClr.Library

section Runs

variable {W : Type} {packages : List (Package W)} {s s' : System W} {reply : Reply}

/-! ### A slot for a new update -/

/-- An update that gives its slot to a new one of the kind of `hdr`: it is of the same kind, it has
    no storage, or its storage does not find it. -/
def Stale (packages : List (Package W)) (update : Update) (hdr : Header) : Prop :=
  (hdr.updateType = update.header.updateType ∧ hdr.updateSubType = update.header.updateSubType) ∨
  ∃ package, providersOf packages update = some package ∧
    ∀ storage, package.storage = some storage → ∃ getHeader world,
      storage.getHeader = some getHeader ∧ (getHeader update.storageHandle world).1.1 = false

variable {hdr : Header}

theorem isStale_stale {i : Nat} {world : W}
    (h : isStale packages s i hdr = some (true, world)) : Stale packages (s.updates i) hdr := by
  unfold isStale at h
  dsimp only at h
  split at h
  · rename_i hkind
    exact Or.inl hkind
  · split at h
    · exact absurd h (by simp)
    · rename_i package hpackage
      refine Or.inr ⟨package, hpackage, fun storage hstorage => ?_⟩
      rw [hstorage] at h
      dsimp only at h
      split at h
      · exact absurd h (by simp)
      · rename_i getHeader hgetHeader
        refine ⟨getHeader, s.world, hgetHeader, ?_⟩
        have hfound : (!(getHeader (s.updates i).storageHandle s.world).1.1) = true :=
          congrArg Prod.fst (Option.some.inj h)
        simpa using hfound

/-- What the search for a slot leaves: the invariant, and every slot in use that is not stale -/
structure Recycled (packages : List (Package W)) (hdr : Header) (s s' : System W) : Prop where
  inv : Inv packages s'
  initialized : s'.updatesInitialized = s.updatesInitialized
  slots : ∀ i, s'.updates i = s.updates i ∨
    (s.updates i).flags.inUse = true ∧ Stale packages (s.updates i) hdr ∧
      s'.updates i = Update.zero

theorem Recycled.refl (hs : Inv packages s) : Recycled packages hdr s s :=
  ⟨hs, rfl, fun _ => Or.inl rfl⟩

theorem Recycled.trans {s'' : System W} (h : Recycled packages hdr s s')
    (h' : Recycled packages hdr s' s'') : Recycled packages hdr s s'' := by
  refine ⟨h'.inv, h'.initialized.trans h.initialized, fun i => ?_⟩
  rcases h.slots i with hsame | ⟨hinUse, hstale, hzero⟩
  · rw [← hsame]
    exact h'.slots i
  · rcases h'.slots i with hsame' | ⟨hinUse', -, -⟩
    · exact Or.inr ⟨hinUse, hstale, hsame'.trans hzero⟩
    · rw [hzero] at hinUse'
      exact absurd hinUse' (by decide)

theorem Recycled.kept {i : Nat} (h : Recycled packages hdr s s')
    (hstale : ¬ Stale packages (s.updates i) hdr) :
    s'.updates i = s.updates i :=
  (h.slots i).resolve_right fun h => hstale h.2.1

/-- The slot that is found is free once the stale updates are gone. -/
theorem getNewUpdateHandle_recycled : ∀ (n i : Nat) (s : System W)
    (found : Option Nat), Inv packages s → i + n ≤ arraySize →
    getNewUpdateHandle packages hdr n i s = some (s', found) →
    ∃ s₁, Recycled packages hdr s s₁ ∧
      match found with
      | none => s' = s₁
      | some k => k < arraySize ∧ (s₁.updates k).flags.inUse = false ∧
          s' = s₁.set k { s₁.updates k with flags := { (s₁.updates k).flags with inUse := true } }
  | 0, i, s, found, hs, _, h => by
    obtain ⟨rfl, rfl⟩ := Prod.mk.inj (Option.some.inj h)
    exact ⟨s, Recycled.refl hs, rfl⟩
  | n + 1, i, s, found, hs, hi, h => by
    rw [getNewUpdateHandle] at h
    dsimp only at h
    split at h
    · exact absurd h (by simp)
    · rename_i s₁ hreleased
      have hrecycled : Recycled packages hdr s s₁ := by
        split at hreleased
        · rename_i hinUse
          split at hreleased
          · exact absurd hreleased (by simp)
          · rename_i stale world hstale
            obtain rfl := Option.some.inj hreleased
            split
            · rename_i hyes
              have hget : ({ s with world := world } : System W).getUpdate (i : Int) =
                  some (i, s.updates i) := by
                rw [System.getUpdate, if_neg (by omega)]
                exact if_pos hinUse
              obtain ⟨hinv, hothers⟩ := (hs.world world).release hget
              have heq : ({ s with world := world } : System W).releaseUpdateHandle (i : Int) =
                  ({ s with world := world } : System W).set i Update.zero := by
                rw [System.releaseUpdateHandle, if_neg (by omega), Int.toNat_natCast]
              refine ⟨hinv, by rw [heq]; rfl, fun j => ?_⟩
              by_cases hj : j = i
              · subst hj
                refine Or.inr ⟨hinUse, isStale_stale (hyes ▸ hstale), ?_⟩
                rw [heq]
                exact set_self
              · exact Or.inl (hothers j hj)
            · exact ⟨hs.world world, rfl, fun _ => Or.inl rfl⟩
        · obtain rfl := Option.some.inj hreleased
          exact Recycled.refl hs
      split at h
      · rename_i hfree
        obtain ⟨rfl, rfl⟩ := Prod.mk.inj (Option.some.inj h)
        exact ⟨s₁, hrecycled, by omega, by simpa using hfree, rfl⟩
      · obtain ⟨s₂, hrest, hfound⟩ := getNewUpdateHandle_recycled n (i + 1) s₁ found hrecycled.inv
          (by omega) h
        exact ⟨s₂, hrecycled.trans hrest, hfound⟩

theorem Inv.initializeUpdates (hs : Inv packages s) :
    Inv packages s.initializeUpdates ∧ s.initializeUpdates.updatesInitialized = true ∧
      s.initializeUpdates.updates = s.updates := by
  unfold System.initializeUpdates
  split
  · rename_i hinitialized
    exact ⟨hs, hinitialized, rfl⟩
  · rename_i hfresh
    have hcleared : (fun i => if i < arraySize then Update.zero else s.updates i) = s.updates := by
      funext i
      split
      · rename_i hi
        exact (hs.fresh (by simpa using hfresh) i hi).symm
      · rfl
    refine ⟨⟨?_, hs.authorised, fun h => by simp at h⟩, rfl, hcleared⟩
    intro i hi
    exact Or.inl (if_pos hi)

/-- A new update takes a free slot: it is neither authenticated nor validated. -/
theorem Inv.take (hs : Inv packages s) {k : Nat} {update : Update} (hk : k < arraySize)
    (hfree : (s.updates k).flags.inUse = false) (header : Header) (providers : Option Nat)
    (hupdate : update = { s.updates k with
      flags := { (s.updates k).flags with inUse := true }
      header := header
      providers := providers }) (hinitialized : s.updatesInitialized = true) :
    Inv packages ((s.set k update).mark (.set k)) := by
  have hzero : s.updates k = Update.zero := by
    refine (hs.slots k hk).resolve_right fun htracked => ?_
    rw [htracked.inUse] at hfree
    exact absurd hfree (by decide)
  have htracked : Tracked packages update (.set k :: historyOf k s.history) := by
    rw [hupdate, hzero]
    exact ⟨rfl, fun h => by simp [Update.zero] at h, fun h => by simp [Update.zero] at h⟩
  refine ⟨fun i hi => ?_, hs.authorised.cons fun _ _ h => by simp at h, fun hfresh => ?_⟩
  · show (s.set k update).updates i = _ ∨
      Tracked packages ((s.set k update).updates i) (historyOf i (.set k :: s.history))
    by_cases hne : i = k
    · subst hne
      have hcons : historyOf i (.set i :: s.history) = .set i :: historyOf i s.history :=
        historyOf_cons_self
      rw [hcons, set_self]
      exact Or.inr htracked
    · rw [historyOf_cons_of_ne (Ne.symm hne), set_of_ne hne]
      exact hs.slots i hi
  · rw [show ((s.set k update).mark (.set k)).updatesInitialized = s.updatesInitialized from rfl,
      hinitialized] at hfresh
    exact absurd hfresh (by decide)

theorem initUpdate_kept (hs : Inv packages s) {szProvider : Data}
    (h : initUpdate packages s szProvider hdr = some (s', reply)) :
    Inv packages s' ∧ ∀ i, (s.updates i).flags.inUse = true →
      ¬ Stale packages (s.updates i) hdr → s'.updates i = s.updates i := by
  obtain ⟨hinv, hinitialized, hcleared⟩ := hs.initializeUpdates
  unfold initUpdate at h
  dsimp only at h
  rw [← hcleared]
  generalize s.initializeUpdates = s₀ at hinv hinitialized h ⊢
  split at h
  · obtain ⟨rfl, -⟩ := Prod.mk.inj (Option.some.inj h)
    exact ⟨hinv, fun _ _ _ => rfl⟩
  · rename_i providers _
    split at h
    · exact absurd h (by simp)
    · rename_i s₁ hsearch
      obtain ⟨rfl, -⟩ := Prod.mk.inj (Option.some.inj h)
      obtain ⟨s₂, hrecycled, rfl⟩ := getNewUpdateHandle_recycled arraySize 0 s₀ none hinv (by omega)
        hsearch
      exact ⟨hrecycled.inv, fun i _ hstale => hrecycled.kept hstale⟩
    · rename_i s₁ k hsearch
      obtain ⟨s₂, hrecycled, hk, hfree, rfl⟩ := getNewUpdateHandle_recycled arraySize 0 s₀ (some k)
        hinv (by omega) hsearch
      rw [set_self] at h
      generalize hupdate : ({ s₂.updates k with
        flags := { (s₂.updates k).flags with inUse := true }
        header := hdr
        providers := some providers } : Update) = pUpdate at h
      have hinUse : pUpdate.flags.inUse = true := by rw [← hupdate]
      rw [set_set] at h
      have htaken : Inv packages ((s₂.set k pUpdate).mark (.set k)) :=
        hrecycled.inv.take hk hfree hdr (some providers) hupdate.symm
          (hrecycled.initialized.trans hinitialized)
      -- a slot in use that is not stale is another one
      have hothers : ∀ i, (s₀.updates i).flags.inUse = true → ¬ Stale packages (s₀.updates i) hdr →
          i ≠ k ∧ s₂.updates i = s₀.updates i := by
        intro i hi hstale
        have hkept := hrecycled.kept hstale
        refine ⟨?_, hkept⟩
        rintro rfl
        rw [hkept, hi] at hfree
        exact absurd hfree (by decide)
      have hsame : ∀ i, (s₀.updates i).flags.inUse = true → ¬ Stale packages (s₀.updates i) hdr →
          (s₂.set k pUpdate).updates i = s₀.updates i := by
        intro i hi hstale
        obtain ⟨hne, hkept⟩ := hothers i hi hstale
        rw [set_of_ne hne, hkept]
      split at h
      · exact absurd h (by simp)
      · split at h
        · exact absurd h (by simp)
        · split at h
          · obtain ⟨rfl, -⟩ := Prod.mk.inj (Option.some.inj h)
            exact ⟨htaken, hsame⟩
          · rename_i initializeUpdate _
            generalize initializeUpdate pUpdate _ = result at h
            obtain ⟨ok, world⟩ := result
            dsimp only at h
            split at h
            · obtain ⟨rfl, -⟩ := Prod.mk.inj (Option.some.inj h)
              exact ⟨htaken.world world, hsame⟩
            · obtain ⟨rfl, -⟩ := Prod.mk.inj (Option.some.inj h)
              have hget : ({ (s₂.set k pUpdate).mark (.set k) with world := world } :
                  System W).getUpdate (k : Int) = some (k, pUpdate) := by
                have hself : (s₂.set k pUpdate).updates (k : Int).toNat = pUpdate := set_self
                rw [System.getUpdate, if_neg (by omega)]
                show (if ((s₂.set k pUpdate).updates (k : Int).toNat).flags.inUse then
                  some ((k : Int).toNat, (s₂.set k pUpdate).updates (k : Int).toNat) else none) = _
                rw [hself, if_pos hinUse, Int.toNat_natCast]
              obtain ⟨hinv', hothers'⟩ := (htaken.world world).release hget
              exact ⟨hinv', fun i hi hstale =>
                (hothers' i (hothers i hi hstale).1).trans (hsame i hi hstale)⟩

/-! ### Calls of a host -/

def Call.updateHandle : Call → Option Int
  | .initUpdate _ _ => none
  | .authCommand updateHandle _ _ => some updateHandle
  | .authenticate updateHandle _ => some updateHandle
  | .openUpdate updateHandle => some updateHandle
  | .create updateHandle => some updateHandle
  | .addPacket updateHandle _ _ _ => some updateHandle
  | .validate updateHandle _ => some updateHandle
  | .install updateHandle _ => some updateHandle
  | .delete updateHandle => some updateHandle

/-- The answer to a handle without an update -/
def Call.refusal : Call → Reply
  | .authCommand _ _ _ => .response false []
  | _ => .bool false

/-- The slots that a call does not change -/
def Framed (packages : List (Package W)) (call : Call) (s s' : System W) : Prop :=
  match call with
  | .initUpdate _ hdr => ∀ i, (s.updates i).flags.inUse = true →
      ¬ Stale packages (s.updates i) hdr → s'.updates i = s.updates i
  | call => ∀ i : Nat, call.updateHandle ≠ some (i : Int) → s'.updates i = s.updates i

variable {updateHandle : Int}

theorem Kept.framed {call : Call} (h : Kept packages updateHandle s s')
    (hcall : call.updateHandle = some updateHandle) : Inv packages s' ∧ Framed packages call s s' := by
  have hothers : ∀ i : Nat, call.updateHandle ≠ some (i : Int) → s'.updates i = s.updates i :=
    fun i hi => h.others i fun heq => hi (by rw [hcall, heq])
  cases call with
  | initUpdate => exact absurd hcall (by simp [Call.updateHandle])
  | _ => exact ⟨h.inv, hothers⟩

/-- **Step.**  Every call keeps the invariant and the slots that are not its own. -/
theorem step_kept (hs : Inv packages s) (call : Call)
    (h : step packages s call = some (s', reply)) : Inv packages s' ∧ Framed packages call s s' := by
  cases call with
  | initUpdate szProvider hdr => exact initUpdate_kept hs h
  | authCommand updateHandle cmd pArgs => exact (authCommand_kept hs h).framed rfl
  | authenticate updateHandle pAuthData => exact (authenticate_kept hs h).framed rfl
  | openUpdate updateHandle => exact (openUpdate_kept hs h).framed rfl
  | create updateHandle => exact (create_kept hs h).framed rfl
  | addPacket updateHandle packetIndex packetData pValidationData =>
      exact (addPacket_kept hs h).framed rfl
  | validate updateHandle pValidationData =>
      obtain ⟨⟨s₁, ok⟩, hvalidate, heq⟩ := Option.map_eq_some_iff.mp h
      obtain ⟨rfl, -⟩ := Prod.mk.inj heq
      exact (validate_kept hs hvalidate).1.framed rfl
  | install updateHandle pValidationData => exact (install_kept hs h).framed rfl
  | delete updateHandle => exact (delete_kept hs h).framed rfl

theorem step_refused {call : Call}
    (hcall : call.updateHandle = some updateHandle) (h : s.getUpdate updateHandle = none) :
    step packages s call = some (s, call.refusal) := by
  cases call with
  | initUpdate => exact absurd hcall (by simp [Call.updateHandle])
  | _ =>
    obtain rfl := Option.some.inj hcall
    simp only [step, authCommand, authenticate, openUpdate, create, addPacket, validate, install,
      delete, h, Option.map_some, Call.refusal]

theorem getUpdate_eq_none (h : updateHandle < 0 ∨ updateHandle > arraySize ∨
    (s.updates updateHandle.toNat).flags.inUse = false) : s.getUpdate updateHandle = none := by
  unfold System.getUpdate
  split
  · rfl
  · rename_i hrange
    rcases h with h | h | hfree
    · exact absurd (Or.inl h) hrange
    · exact absurd (Or.inr h) hrange
    · rw [if_neg (by rw [hfree]; decide)]

theorem initial_inv (behind : Update) (world : W) : Inv packages (initial behind world) := by
  have hzero : ∀ i < arraySize, (initial behind world).updates i = Update.zero :=
    fun i hi => if_pos hi
  refine ⟨fun i hi => Or.inl (hzero i hi), fun after handle validates before heq => ?_,
    fun _ => hzero⟩
  exact absurd heq (by simp [initial])

/-- **Runs.**  After any calls, whatever the providers answer, only authorised updates have been
    installed; and the next call leaves the other slots as they are, and does nothing to a handle
    without an update. -/
theorem installed_when_authorised (packages : List (Package W)) (behind : Update) (world : W)
    (calls : List Call) (s : System W) (replies : List Reply)
    (hrun : run (step packages) (initial behind world) calls = some (s, replies)) :
    Authorised s.history ∧
    (∀ call s' reply, step packages s call = some (s', reply) → Framed packages call s s') ∧
    ∀ (call : Call) (updateHandle : Int), call.updateHandle = some updateHandle →
      (updateHandle < 0 ∨ updateHandle > arraySize ∨
        (s.updates updateHandle.toNat).flags.inUse = false) →
      step packages s call = some (s, call.refusal) := by
  have hstep : ∀ (s : System W) call s' reply, Inv packages s → True →
      step packages s call = some (s', reply) → Inv packages s' :=
    fun _ call _ _ hs _ h => (step_kept hs call h).1
  have hs : Inv packages s := run_preserves (step packages) hstep calls _ s replies
    (initial_inv behind world) (meets_of_forall _ (fun _ _ => trivial) calls _) hrun
  exact ⟨hs.authorised, fun call _ _ h => (step_kept hs call h).2,
    fun _ _ hcall h => step_refused hcall (getUpdate_eq_none h)⟩

end Runs

/-! ### Single hosts -/

def accepting : Package Unit where
  providerName := some [0x41]
  update := some ⟨none, some fun _ _ world => (true, world)⟩
  validation := some ⟨none, some fun _ _ world => (true, world), none,
    some fun _ _ world => (true, world)⟩
  storage := none

def headerOfType (updateType : Nat) : Header := ⟨1, ⟨1, 0, 0, 0⟩, updateType, 0, 16, 4⟩

theorem installed_when_authorised_accepting : ∃ s,
    run (step [accepting]) (initial Update.zero ())
      [.initUpdate [0x61] (headerOfType 1), .authenticate 0 [], .install 0 []] =
      some (s, [.handle 0, .bool true, .bool true]) ∧
    s.history = [.installed 0 true, .validated 0 true, .authenticated 0 true, .set 0] ∧
    Authorised s.history := by
  have hfacts : (run (step [accepting]) (initial Update.zero ())
      [.initUpdate [0x61] (headerOfType 1), .authenticate 0 [], .install 0 []]).map
      (fun r => (r.2, r.1.history)) = some ([.handle 0, .bool true, .bool true],
        [.installed 0 true, .validated 0 true, .authenticated 0 true, .set 0]) := by decide
  obtain ⟨⟨s, replies⟩, hrun, heq⟩ := Option.map_eq_some_iff.mp hfacts
  obtain ⟨rfl, hhistory⟩ := Prod.mk.inj heq
  exact ⟨s, hrun, hhistory, (installed_when_authorised _ _ _ _ _ _ hrun).1⟩

/-- An update whose provider has no storage gives its slot to an update of another type. -/
theorem other_type_takes_slot : ¬ ∀ s s' : System Unit, ∀ replies reply szProvider hdr,
    run (step [accepting]) (initial Update.zero ()) [.initUpdate [0x41] (headerOfType 1)] =
      some (s, replies) →
    step [accepting] s (.initUpdate szProvider hdr) = some (s', reply) →
    hdr.updateType ≠ (s.updates 0).header.updateType → s'.updates 0 = s.updates 0 := by
  intro hall
  have hfacts : (run (step [accepting]) (initial Update.zero ())
      [.initUpdate [0x41] (headerOfType 1)]).map (fun r => ((r.1.updates 0).header.updateType,
        (step [accepting] r.1 (.initUpdate [0x41] (headerOfType 2))).map
          fun r => (r.1.updates 0).header.updateType)) = some (1, some 2) := by decide
  obtain ⟨⟨s, replies⟩, hrun, heq⟩ := Option.map_eq_some_iff.mp hfacts
  obtain ⟨htype, hnext⟩ := Prod.mk.inj heq
  obtain ⟨⟨s', reply⟩, hstep, htype'⟩ := Option.map_eq_some_iff.mp hnext
  dsimp only at htype htype'
  have hsame := hall s s' replies reply _ _ hrun hstep (by rw [htype]; decide)
  rw [hsame, htype] at htype'
  exact absurd htype' (by decide)

end TinyClr.MFUpdate
