import TinyClr.Pal.BlockStorageErase
import TinyClr.TinyBooter.BitFieldManagerSpec

/-!
# What is erased, and the bit field that comes next

The blocks that `EraseOnSignatureCheckFail` erases are those of the dirty sectors exactly when the
walk counts right for each of them, and the field that is taken next has no dirty sector then.
-/

namespace TinyClr.TinyBooter

open TinyClr.Library TinyClr.BlockStorage

variable {dev : BlockStorageDevice} {s s' : State} {f : SectorBitField}
  {fields : Fin c_MaxSignatureCount → SectorBitField} {i : Fin c_MaxSignatureCount}

/-! ### Fields -/

theorem not_isDirty_unused (u : Fin c_MaxFieldUnits) {j : Nat} (hj : j < BITS_PER_UINT32) :
    unused.isDirty u j = false := by
  have hall : ∀ j < BITS_PER_UINT32, (0 == (0xFFFFFFFF : UInt32) &&& bit j) = false := by decide
  exact hall j hj

theorem setDirty_not_valid (f : SectorBitField) : (f.setDirty c_MaxSectorCount).isValid = false := by
  have hunit : f.setDirty c_MaxSectorCount lastUnit =
      f lastUnit &&& ~~~ TINYBOOTER_SECTOR_BITFIELD_VALID_BIT := if_pos rfl
  rw [SectorBitField.isValid, hunit, UInt32.and_assoc, UInt32.not_and_self, UInt32.and_zero]
  rfl

def AllUnused (fields : Fin c_MaxSignatureCount → SectorBitField) : Prop :=
  ∀ i, (fields i).isValid = true → fields i = unused

/-- The valid fields behind a valid one have not been used: sectors are marked in the first valid field
    only. -/
def InOrder (fields : Fin c_MaxSignatureCount → SectorBitField) : Prop :=
  ∀ i j, i < j → (fields i).isValid = true → (fields j).isValid = true → fields j = unused

theorem AllUnused.inOrder (h : AllUnused fields) : InOrder fields := fun _ j _ _ hj => h j hj

theorem allUnused_unused : AllUnused fun _ => unused := fun _ _ => rfl

theorem firstValid_some (h : firstValid fields = some i) :
    (fields i).isValid = true ∧ ∀ j < i, (fields j).isValid = false := by
  obtain ⟨hvalid, k, hk, hik, hbefore⟩ := List.find?_eq_some_iff_getElem.mp h
  rw [List.getElem_finRange] at hik
  refine ⟨hvalid, fun j hj => ?_⟩
  have hjk : j.val < k := by
    rw [← hik] at hj
    exact hj
  have hj := hbefore j.val hjk
  rw [List.getElem_finRange] at hj
  simpa using hj

theorem firstValid_none (h : firstValid fields = none) : ∀ i, (fields i).isValid = false := by
  intro i
  have hi := List.find?_eq_none.mp h i (List.mem_finRange i)
  simpa using hi

theorem firstValid_unused : firstValid (fun _ => unused) = some firstField := by decide

/-- A sector is marked in the first valid field. -/
theorem InOrder.mark (h : InOrder fields) (hi : firstValid fields = some i) (sectorIndex : Nat) :
    InOrder (Function.update fields i ((fields i).setDirty sectorIndex)) := by
  intro j k hlt hj hk
  obtain ⟨hvalid, hbefore⟩ := firstValid_some hi
  have hji : ¬ j < i := by
    intro hji
    rw [Function.update_of_ne (Fin.ne_of_lt hji), hbefore j hji] at hj
    cases hj
  have hki : k ≠ i := fun heq => hji (heq ▸ hlt)
  rw [Function.update_of_ne hki] at hk ⊢
  by_cases hij : j = i
  · exact h i k (hij ▸ hlt) hvalid hk
  · rw [Function.update_of_ne hij] at hj
    exact h j k hlt hj hk

theorem InOrder.setDirty (h : InOrder fields) (hi : firstValid fields = some i) :
    AllUnused (Function.update fields i ((fields i).setDirty c_MaxSectorCount)) := by
  intro j hj
  obtain ⟨hvalid, hbefore⟩ := firstValid_some hi
  by_cases hij : j = i
  · subst hij
    rw [Function.update_self, setDirty_not_valid] at hj
    cases hj
  · rw [Function.update_of_ne hij] at hj ⊢
    rcases Nat.lt_or_gt_of_ne fun heq => hij (Fin.ext heq) with hlt | hlt
    · rw [hbefore j hlt] at hj
      cases hj
    · exact h i j hlt hvalid hj

theorem AllUnused.setDirty (h : AllUnused fields) (i : Fin c_MaxSignatureCount) :
    AllUnused (Function.update fields i ((fields i).setDirty c_MaxSectorCount)) := by
  intro j hj
  by_cases hij : j = i
  · subst hij
    rw [Function.update_self, setDirty_not_valid] at hj
    cases hj
  · rw [Function.update_of_ne hij] at hj ⊢
    exact h j hj

/-! ### The block with the configuration -/

variable {address : Nat}

theorem findRangeFromAddress_isSome {g : BlockRegionInfo} {address a e : Nat}
    {xs : List BlockRange} {j : Nat} (htile : RangesTile a xs g.numBlocks)
    (he : e = g.start + g.bytesPerBlock * a) (hle : e ≤ address)
    (hlt : address < g.start + g.size) : (findRangeFromAddress g address xs e j).isSome = true := by
  induction xs generalizing a e j with
  | nil =>
    obtain rfl : a = g.numBlocks := htile
    rw [BlockRegionInfo.size, Nat.mul_comm] at hlt
    omega
  | cons x xs ih =>
    have hsum := htile.sum
    obtain ⟨rfl, hrest⟩ := htile
    have hend : x.startBlock + x.getBlockCount ≤ g.numBlocks := by
      rw [List.map_cons, List.sum_cons] at hsum
      omega
    have hnext : uint32 (e + g.bytesPerBlock * x.getBlockCount : Nat) =
        g.start + g.bytesPerBlock * (x.startBlock + x.getBlockCount) := by
      have hfits := g.fits
      have hmul := Nat.mul_le_mul_left g.bytesPerBlock hend
      rw [Nat.mul_comm g.bytesPerBlock g.numBlocks] at hmul
      rw [he, Nat.add_assoc, ← Nat.mul_add]
      exact uint32_nat (by omega)
    rw [findRangeFromAddress, hnext]
    split
    · rfl
    · rename_i hbehind
      have hcount : x.startBlock + x.getBlockCount = x.endBlock + 1 := by
        have hxle := x.le
        rw [BlockRange.getBlockCount]
        omega
      exact ih hrest (by rw [hcount]) (Nat.not_lt.mp hbehind)

theorem findRegionFromAddress_isSome {gs : List BlockRegionInfo} {i : Nat}
    (htile : Tiled gs) (h : ∃ g ∈ gs, g.start ≤ address ∧ address < g.start + g.size) :
    (findRegionFromAddress address gs i).isSome = true := by
  induction gs generalizing i with
  | nil =>
    obtain ⟨g, hg, -⟩ := h
    cases hg
  | cons g gs ih =>
    rw [findRegionFromAddress]
    by_cases hin : g.start ≤ address ∧ address < g.start + g.size
    · rw [if_pos hin]
      dsimp only
      have hrange := htile g List.mem_cons_self
      have hstart : (g.blockRanges.head?.map BlockRange.startBlock).getD 0 = 0 := by
        cases hranges : g.blockRanges with
        | nil => rfl
        | cons x xs =>
          rw [hranges] at hrange
          exact hrange.1
      have hfits := g.fits
      have hsome := @findRangeFromAddress_isSome g address 0 g.start g.blockRanges 0 hrange rfl hin.1
        hin.2
      rw [hstart, Nat.mul_zero, Nat.add_zero, uint32_nat (by omega)]
      obtain ⟨j, hj⟩ := Option.isSome_iff_exists.mp hsome
      rw [hj]
      rfl
    · rw [if_neg hin]
      refine ih (fun g' hg' => htile g' (List.mem_cons_of_mem g hg')) ?_
      obtain ⟨g', hg', hin'⟩ := h
      rcases List.mem_cons.mp hg' with rfl | hmem
      · exact absurd hin' hin
      · exact ⟨g', hmem, hin'⟩

theorem config_region {slot : Slot} (htile : Tiled dev.regions)
    (h : findNextUsageBlock CONFIG 0 dev.regions 0 0 = some slot) :
    ∃ r, findRegionFromAddress slot.baseAddress dev.regions 0 = some r := by
  obtain ⟨n, g, k, x, hg, hx, -, rfl, -⟩ := findNextUsageBlock_some h
  refine Option.isSome_iff_exists.mp (findRegionFromAddress_isSome htile
    ⟨g, List.mem_of_getElem? hg, Nat.le_add_right _ _, ?_⟩)
  have hinside := g.inside x (List.mem_of_getElem? hx)
  have hle := x.le
  exact Nat.add_lt_add_left (Nat.mul_lt_mul_of_pos_right (by omega) g.pos) _

/-! ### `GetNextSectorSignatureCheck` and `InvalidateSectorBitField` -/

structure Ready (dev : BlockStorageDevice) (s : State) (f : SectorBitField)
    (i : Fin c_MaxSignatureCount) : Prop where
  ram : s.m_fUsingRAM = false
  first : firstValid s.signatureCheck = some i
  field : s.signatureCheck i = f
  pointer : dev.supportsXIP = true → s.m_signatureCheck = some (.field i)

theorem getNext_spec {slot : Slot} (htile : Tiled dev.regions)
    (hconfig : findNextUsageBlock CONFIG 0 dev.regions 0 0 = some slot) (s : State) :
    ∃ s' f i, s.getNextSectorSignatureCheck dev = some (s', f) ∧ s'.erased = s.erased ∧
      s'.m_fSignatureCheckDirty = s.m_fSignatureCheckDirty ∧ Ready dev s' f i ∧
      (s'.signatureCheck = s.signatureCheck ∨ f = unused ∧ s'.signatureCheck = fun _ => unused) := by
  obtain ⟨r, hregion⟩ := config_region htile hconfig
  rw [State.getNextSectorSignatureCheck, hconfig]
  dsimp only
  rw [hregion]
  dsimp only
  by_cases hxip : dev.supportsXIP = true
  · rw [if_pos hxip]
    cases hfirst : firstValid s.signatureCheck with
    | some i => exact ⟨_, _, i, rfl, rfl, rfl, ⟨rfl, hfirst, rfl, fun _ => rfl⟩, Or.inl rfl⟩
    | none =>
      exact ⟨_, _, firstField, rfl, rfl, rfl, ⟨rfl, firstValid_unused, rfl, fun _ => rfl⟩,
        Or.inr ⟨rfl, rfl⟩⟩
  · rw [if_neg hxip]
    cases hfirst : firstValid s.signatureCheck with
    | some i =>
      exact ⟨_, _, i, rfl, rfl, rfl, ⟨rfl, hfirst, rfl, fun h => absurd h hxip⟩, Or.inl rfl⟩
    | none =>
      exact ⟨_, _, firstField, rfl, rfl, rfl,
        ⟨rfl, firstValid_unused, rfl, fun h => absurd h hxip⟩, Or.inr ⟨rfl, rfl⟩⟩

theorem getNext_without (hconfig : findNextUsageBlock CONFIG 0 dev.regions 0 0 = none) (s : State) :
    ∃ s', s.getNextSectorSignatureCheck dev = some (s', unused) ∧ s'.erased = s.erased ∧
      s'.m_fSignatureCheckDirty = s.m_fSignatureCheckDirty ∧ s'.signatureCheck = s.signatureCheck := by
  rw [State.getNextSectorSignatureCheck, hconfig]
  exact ⟨_, rfl, rfl, rfl, rfl⟩

theorem AllUnused.getNext (h : AllUnused s.signatureCheck) (htile : Tiled dev.regions) :
    ∃ s', s.getNextSectorSignatureCheck dev = some (s', unused) ∧ s'.erased = s.erased ∧
      AllUnused s'.signatureCheck := by
  cases hconfig : findNextUsageBlock CONFIG 0 dev.regions 0 0 with
  | none =>
    obtain ⟨s', hget, herased, -, hfields⟩ := getNext_without hconfig s
    exact ⟨s', hget, herased, hfields ▸ h⟩
  | some slot =>
    obtain ⟨s', f, i, hget, herased, -, hready, hfields | ⟨rfl, hfields⟩⟩ :=
      getNext_spec htile hconfig s
    · obtain rfl : f = unused := by
        rw [← hready.field, hfields]
        exact h i (hfields ▸ (firstValid_some hready.first).1)
      exact ⟨s', hget, herased, hfields ▸ h⟩
    · exact ⟨s', hget, herased, hfields ▸ allUnused_unused⟩

/-- `SetDirtySectorBit` keeps the fields in order. -/
theorem Ready.inOrder (h : Ready dev s f i) (horder : InOrder s.signatureCheck) {sectorIndex : Nat}
    (hset : s.setDirtySectorBit dev sectorIndex = some s') : InOrder s'.signatureCheck := by
  rw [State.setDirtySectorBit, h.ram, if_neg Bool.false_ne_true] at hset
  dsimp only at hset
  split at hset
  · exact Option.some.inj hset ▸ horder
  · rw [h.first] at hset
    by_cases hxip : dev.supportsXIP = true
    · rw [if_pos hxip, h.pointer hxip] at hset
      exact Option.some.inj hset ▸ horder.mark h.first sectorIndex
    · rw [if_neg hxip] at hset
      exact Option.some.inj hset ▸ horder.mark h.first sectorIndex

/-- What the fields are while sectors are erased: those there were, or those of an erased block -/
def Settled (fields fields' : Fin c_MaxSignatureCount → SectorBitField) : Prop :=
  fields' = fields ∨ AllUnused fields'

theorem Ready.setDirtySectorBit {s₀ : State} (h : Ready dev s₀ f i)
    (horder : InOrder s₀.signatureCheck) (hram : s.m_fUsingRAM = s₀.m_fUsingRAM)
    (hpointer : s.m_signatureCheck = s₀.m_signatureCheck)
    (hfields : Settled s₀.signatureCheck s.signatureCheck) :
    ∃ s', s.setDirtySectorBit dev c_MaxSectorCount = some s' ∧ s'.erased = s.erased ∧
      AllUnused s'.signatureCheck := by
  have hgiven : ∀ k, (s.signatureCheck = s₀.signatureCheck → k = i) →
      AllUnused (Function.update s.signatureCheck k
        ((s.signatureCheck k).setDirty c_MaxSectorCount)) := by
    intro k hk
    rcases hfields with hsame | hunused
    · rw [hk hsame, hsame]
      exact horder.setDirty h.first
    · exact hunused.setDirty k
  rw [State.setDirtySectorBit, if_neg (Nat.lt_irrefl _), hram, h.ram, if_neg Bool.false_ne_true]
  dsimp only
  by_cases hxip : dev.supportsXIP = true
  · rw [if_pos hxip, hpointer, h.pointer hxip]
    exact ⟨_, rfl, rfl, hgiven i fun _ => rfl⟩
  · rw [if_neg hxip]
    cases hfirst : firstValid s.signatureCheck with
    | some k =>
      refine ⟨_, rfl, rfl, hgiven k fun hsame => ?_⟩
      rw [hsame, h.first] at hfirst
      exact (Option.some.inj hfirst).symm
    | none =>
      refine ⟨_, rfl, rfl, fun j hj => ?_⟩
      dsimp only at hj
      rw [firstValid_none hfirst j] at hj
      cases hj

/-! ### Dirty sectors -/

def sectors (f : SectorBitField) (u : Fin c_MaxFieldUnits) : List Nat :=
  ((List.range BITS_PER_UINT32).filter (f.isDirty u)).map (u.val * BITS_PER_UINT32 + ·)

def dirtySectors (f : SectorBitField) : List Nat :=
  (List.finRange c_MaxFieldUnits).flatMap (sectors f)

variable {b : Nat}

theorem mem_sectors {u : Fin c_MaxFieldUnits} (h : b ∈ sectors f u) :
    u.val * BITS_PER_UINT32 ≤ b ∧ b < (u.val + 1) * BITS_PER_UINT32 := by
  obtain ⟨j, hj, rfl⟩ := List.mem_map.mp h
  have hlt := List.mem_range.mp (List.mem_filter.mp hj).1
  rw [Nat.add_mul, Nat.one_mul]
  exact ⟨Nat.le_add_right _ _, Nat.add_lt_add_left hlt _⟩

theorem dirtySectors_pairwise (f : SectorBitField) : (dirtySectors f).Pairwise (· < ·) := by
  refine List.pairwise_flatMap.mpr ⟨fun u _ => ?_, ?_⟩
  · rw [sectors, List.pairwise_map]
    exact (List.pairwise_lt_range.filter _).imp fun h => Nat.add_lt_add_left h _
  · refine (List.pairwise_lt_finRange c_MaxFieldUnits).imp fun {u u'} hlt b hb b' hb' => ?_
    have hle : (u.val + 1) * BITS_PER_UINT32 ≤ u'.val * BITS_PER_UINT32 :=
      Nat.mul_le_mul_right _ hlt
    exact Nat.lt_of_lt_of_le (mem_sectors hb).2 (Nat.le_trans hle (mem_sectors hb').1)

theorem sectors_unused {u : Fin c_MaxFieldUnits} (h : f u = 0xFFFFFFFF) : sectors f u = [] := by
  rw [sectors, List.filter_eq_nil_iff.mpr, List.map_nil]
  intro j hj
  have hclean := not_isDirty_unused u (List.mem_range.mp hj)
  rw [SectorBitField.isDirty, h]
  exact Bool.not_eq_true _ ▸ hclean

theorem dirtySectors_unused : dirtySectors unused = [] :=
  List.flatMap_eq_nil_iff.mpr fun _ _ => sectors_unused rfl

/-- What is done for a dirty sector -/
def eraseDirty (dev : BlockStorageDevice) (s : State × Walk) (b : Nat) : Option (State × Walk) :=
  match search dev s.2 b with
  | none => none
  | some (w, none) => some (s.1, w)
  | some (w, some eraseAddress) => some (s.1.eraseBlock dev eraseAddress, w)

/-- The same, with the flag of the manager -/
def flagged (dirty : Bool) (s : State × Walk) : State × Walk :=
  ({ s.1 with m_fSignatureCheckDirty := dirty }, s.2)

theorem foldlM_eraseSector (u : Fin c_MaxFieldUnits) (js : List Nat) (s : State × Walk) :
    js.foldlM (eraseSector dev f u) s =
      ((js.filter (f.isDirty u)).map (u.val * BITS_PER_UINT32 + ·)).foldlM (eraseDirty dev) s := by
  induction js generalizing s with
  | nil => rfl
  | cons j js ih =>
    rw [List.foldlM_cons, eraseSector]
    by_cases hdirty : f.isDirty u j = true
    · rw [if_pos hdirty, List.filter_cons_of_pos hdirty, List.map_cons, List.foldlM_cons]
      exact bind_congr ih
    · rw [if_neg hdirty, List.filter_cons_of_neg hdirty]
      exact ih s

theorem foldlM_eraseDirty_flagged (dirty : Bool) (bs : List Nat) (s : State × Walk) :
    bs.foldlM (eraseDirty dev) (flagged dirty s) =
      (bs.foldlM (eraseDirty dev) s).map (flagged dirty) := by
  induction bs generalizing s with
  | nil => rfl
  | cons b bs ih =>
    rw [List.foldlM_cons, List.foldlM_cons, eraseDirty, eraseDirty]
    rcases hsearch : search dev s.2 b with _ | ⟨w, _ | address⟩
    · rw [show (flagged dirty s).2 = s.2 from rfl, hsearch]
      rfl
    · rw [show (flagged dirty s).2 = s.2 from rfl, hsearch]
      exact ih (s.1, w)
    · rw [show (flagged dirty s).2 = s.2 from rfl, hsearch]
      exact ih (s.1.eraseBlock dev address, w)

theorem foldlM_eraseUnit (us : List (Fin c_MaxFieldUnits)) (s : State × Walk) :
    us.foldlM (eraseUnit dev f) s =
      ((us.flatMap (sectors f)).foldlM (eraseDirty dev) s).map
        (flagged (s.1.m_fSignatureCheckDirty || us.any fun u => f u ≠ 0xFFFFFFFF)) := by
  induction us generalizing s with
  | nil =>
    rw [List.any_nil, Bool.or_false]
    rfl
  | cons u us ih =>
    rw [List.foldlM_cons, eraseUnit, List.flatMap_cons, List.any_cons]
    by_cases hunit : f u = 0xFFFFFFFF
    · rw [if_neg (not_not.mpr hunit), sectors_unused hunit, List.nil_append,
        decide_eq_false (not_not.mpr hunit), Bool.false_or]
      exact ih s
    · rw [if_pos hunit, decide_eq_true hunit, Bool.true_or, Bool.or_true, List.foldlM_append,
        foldlM_eraseSector]
      change (sectors f u).foldlM (eraseDirty dev) (flagged true s) >>= _ = _
      rw [foldlM_eraseDirty_flagged]
      rcases (sectors f u).foldlM (eraseDirty dev) s with _ | t
      · rfl
      · change us.foldlM (eraseUnit dev f) (flagged true t) =
          ((us.flatMap (sectors f)).foldlM (eraseDirty dev) t).map (flagged true)
        rw [ih, foldlM_eraseDirty_flagged, Option.map_map]
        rfl

/-! ### Erasing -/

/-- What stays while sectors are erased -/
structure Kept (s s' : State) : Prop where
  pointer : s'.m_signatureCheck = s.m_signatureCheck
  ram : s'.m_fUsingRAM = s.m_fUsingRAM
  dirty : s'.m_fSignatureCheckDirty = s.m_fSignatureCheckDirty
  fields : Settled s.signatureCheck s'.signatureCheck

theorem Kept.refl (s : State) : Kept s s := ⟨rfl, rfl, rfl, Or.inl rfl⟩

theorem Kept.trans {s'' : State} (h : Kept s s') (h' : Kept s' s'') : Kept s s'' := by
  refine ⟨h'.pointer.trans h.pointer, h'.ram.trans h.ram, h'.dirty.trans h.dirty, ?_⟩
  rcases h'.fields with hsame | hunused
  · exact hsame ▸ h.fields
  · exact Or.inr hunused

theorem eraseBlock_kept (s : State) (address : Nat) : Kept s (s.eraseBlock dev address) := by
  refine ⟨rfl, rfl, rfl, ?_⟩
  rw [State.eraseBlock]
  dsimp only
  split
  · refine Or.inr fun i hi => ?_
    cases hzero : dev.erasedBitsAreZero with
    | false => rfl
    | true =>
      have hinvalid : SectorBitField.isValid (fun _ => 0) = false := by decide
      rw [hzero] at hi
      exact absurd (hinvalid.symm.trans hi) Bool.false_ne_true
  · exact Or.inl rfl

variable {bs : List Nat}

theorem foldlM_eraseDirty_kept {s t : State × Walk}
    (h : bs.foldlM (eraseDirty dev) s = some t) :
    Kept s.1 t.1 ∧ ∃ calls, t.1.erased = s.1.erased ++ calls ∧ calls.length ≤ bs.length := by
  induction bs generalizing s with
  | nil =>
    obtain rfl := Option.some.inj h
    exact ⟨Kept.refl _, [], (List.append_nil _).symm, Nat.le_refl 0⟩
  | cons b bs ih =>
    rw [List.foldlM_cons, eraseDirty] at h
    rcases hsearch : search dev s.2 b with _ | ⟨w, _ | address⟩
    · rw [hsearch] at h
      cases h
    · rw [hsearch] at h
      obtain ⟨hkept, calls, herased, hlength⟩ := ih (s := (s.1, w)) h
      exact ⟨hkept, calls, herased, Nat.le_succ_of_le hlength⟩
    · rw [hsearch] at h
      obtain ⟨hkept, calls, herased, hlength⟩ := ih (s := (s.1.eraseBlock dev address, w)) h
      refine ⟨(eraseBlock_kept s.1 address).trans hkept, address :: calls, ?_,
        Nat.succ_le_succ hlength⟩
      rw [herased, List.append_cons]
      rfl

/-- Each of the blocks is erased for itself, and the loops end, exactly when the walk comes to the
    address of each. -/
theorem foldlM_eraseDirty_iff {s : State × Walk} {l : List Stop} {passed : Nat}
    (hstands : StandsAt dev s.2 l passed) (hint : passed + (l.map Stop.count).sum < 2 ^ 31)
    (hsorted : bs.Pairwise (· < ·)) (hexist : ∀ b ∈ bs, b < blocks dev.regions)
    (hahead : ∀ b ∈ bs, passed ≤ b ∧
      seek Stop.count (route 0 dev.regions 0) 0 b = seek Stop.count l passed b) :
    (∃ t calls, bs.foldlM (eraseDirty dev) s = some t ∧ t.1.erased = s.1.erased ++ calls ∧
      calls.map some = bs.map (blockAt dev.regions)) ↔
      ∀ b ∈ bs, walked dev b = blockAt dev.regions b := by
  induction bs generalizing s l passed with
  | nil => exact iff_of_true ⟨s, [], rfl, (List.append_nil _).symm, rfl⟩ (fun _ h => nomatch h)
  | cons b bs ih =>
    obtain ⟨hle, hseek⟩ := hahead b List.mem_cons_self
    obtain ⟨hlt, hsorted⟩ := List.pairwise_cons.mp hsorted
    obtain ⟨own, hown⟩ :=
      Option.isSome_iff_exists.mp (blockAt_isSome (hexist b List.mem_cons_self))
    rw [List.foldlM_cons, eraseDirty, List.map_cons, hown]
    rcases hstands.search hle hint with ⟨hnone, hfails⟩ |
      ⟨p, ps, passed', w', hfound, hsearch, hstands'⟩
    · refine iff_of_false ?_ fun hall => ?_
      · rintro ⟨t, calls, hrun, herased, hcalls⟩
        rcases hsearch : search dev s.2 b with _ | ⟨w, _ | address⟩
        · rw [hsearch] at hrun
          cases hrun
        · rw [hsearch] at hrun
          obtain ⟨-, calls', herased', hlength⟩ := foldlM_eraseDirty_kept (s := (s.1, w)) hrun
          obtain rfl := List.append_cancel_left (herased.symm.trans herased')
          have hlengths := congrArg List.length hcalls
          rw [List.length_map, List.length_cons, List.length_map] at hlengths
          omega
        · exact hfails w address hsearch
      · have hwalked := hall b List.mem_cons_self
        rw [walked, hseek, hnone, hown] at hwalked
        cases hwalked
    · have hwalked : walked dev b = some (p.region.blockAddress (b - passed')) := by
        rw [walked, hseek, hfound]
        rfl
      obtain ⟨pre, hl, hpassed, hpre, -⟩ := seek_eq_some_iff.mp hfound
      have hint' : passed' + ((p :: ps).map Stop.count).sum < 2 ^ 31 := by
        rw [hl, List.map_append, List.sum_append] at hint
        omega
      have hle' : passed' ≤ b := by
        rcases hpre with rfl | hbefore
        · rw [hpassed, List.map_nil, List.sum_nil]
          exact hle
        · exact Nat.le_of_lt hbefore
      have hrest := @ih (s.1.eraseBlock dev (p.region.blockAddress (b - passed')), w') (p :: ps)
        passed' hstands' hint' hsorted (fun c hc => hexist c (List.mem_cons_of_mem b hc))
        fun c hc => by
          have hbc := Nat.le_of_lt (hlt c hc)
          refine ⟨Nat.le_trans hle' hbc, ?_⟩
          rw [(hahead c (List.mem_cons_of_mem b hc)).2, seek_resume hfound hbc]
      rw [hsearch, List.forall_mem_cons, hwalked, hown, ← hrest]
      constructor
      · rintro ⟨t, calls, hrun, herased, hcalls⟩
        obtain ⟨-, calls', herased', -⟩ := foldlM_eraseDirty_kept
          (s := (s.1.eraseBlock dev (p.region.blockAddress (b - passed')), w')) hrun
        have herased'' : t.1.erased =
            s.1.erased ++ p.region.blockAddress (b - passed') :: calls' := by
          rw [herased', List.append_cons]
          rfl
        obtain rfl := List.append_cancel_left (herased.symm.trans herased'')
        obtain ⟨hhead, htail⟩ := List.cons.inj hcalls
        exact ⟨hhead, t, calls', hrun, herased', htail⟩
      · rintro ⟨hhead, t, calls, hrun, herased, hcalls⟩
        refine ⟨t, p.region.blockAddress (b - passed') :: calls, hrun, ?_, ?_⟩
        · rw [herased, List.append_cons]
          rfl
        · rw [List.map_cons, hhead, hcalls]

/-! ### `EraseOnSignatureCheckFail` -/

def current (dev : BlockStorageDevice) (s : State) : SectorBitField :=
  ((s.resetBitFieldManager.getNextSectorSignatureCheck dev).map Prod.snd).getD unused

/-- The check ends; the block of each dirty sector is erased for it, no other block is, and the field
    that comes next has no dirty sector. -/
def ErasesExactly (dev : BlockStorageDevice) (s : State) : Prop :=
  ∃ s' calls, eraseOnSignatureCheckFail dev s = some s' ∧ s'.erased = s.erased ++ calls ∧
    calls.map some = (dirtySectors (current dev s)).map (blockAt dev.regions) ∧
    (∀ b address, blockAt dev.regions b = some address →
      ((∃ c ∈ calls, (dev.findBlock c).map Prod.fst = some address) ↔
        b ∈ dirtySectors (current dev s))) ∧
    ∃ s'' next, s'.getNextSectorSignatureCheck dev = some (s'', next) ∧ dirtySectors next = []

theorem findBlock_blockAt (h : blockAt dev.regions b = some address) :
    (dev.findBlock address).map Prod.fst = some address := by
  obtain ⟨r, g, hg, hlow, hhigh, rfl⟩ := blockAt_eq_some_iff.mp h
  generalize hn : b - blocks (dev.regions.take r) = n
  have hlt : n < g.numBlocks := by omega
  have hindex : g.blockIndexFromAddress (g.blockAddress n) = n := by
    rw [BlockRegionInfo.blockIndexFromAddress, BlockRegionInfo.blockAddress, Nat.add_sub_cancel_left,
      Nat.mul_div_cancel _ g.pos]
  rw [findBlock_eq (a := g.blockAddress n) (List.mem_of_getElem? hg) (Nat.le_add_right _ _)
    (Nat.add_lt_add_left (Nat.mul_lt_mul_of_pos_right hlt g.pos) _), hindex]
  rfl

theorem blockAt_inj {b' : Nat} (h : blockAt dev.regions b = some address)
    (h' : blockAt dev.regions b' = some address) : b = b' := by
  obtain ⟨r, g, hg, hlow, hhigh, rfl⟩ := blockAt_eq_some_iff.mp h
  obtain ⟨r', g', hg', hlow', hhigh', heq⟩ := blockAt_eq_some_iff.mp h'
  obtain ⟨rfl, hsame⟩ := block_ext dev.apart hg hg' (by omega) (by omega) heq
  omega

theorem erased_iff {calls : List Nat} (hcalls : calls.map some = bs.map (blockAt dev.regions))
    (haddress : blockAt dev.regions b = some address) :
    (∃ c ∈ calls, (dev.findBlock c).map Prod.fst = some address) ↔ b ∈ bs := by
  constructor
  · rintro ⟨c, hc, hfind⟩
    have hmem : some c ∈ bs.map (blockAt dev.regions) := hcalls ▸ List.mem_map_of_mem hc
    obtain ⟨b', hb', hown⟩ := List.mem_map.mp hmem
    obtain rfl := Option.some.inj ((findBlock_blockAt hown).symm.trans hfind)
    exact blockAt_inj haddress hown ▸ hb'
  · intro hb
    have hmem : some address ∈ calls.map some :=
      hcalls ▸ haddress ▸ List.mem_map_of_mem hb
    obtain ⟨c, hc, heq⟩ := List.mem_map.mp hmem
    obtain rfl := Option.some.inj heq
    exact ⟨c, hc, findBlock_blockAt haddress⟩

theorem getNext_unused (htile : Tiled dev.regions) (hfirst : firstValid s.signatureCheck = some i)
    (hunused : s.signatureCheck i = unused) :
    ∃ s', s.getNextSectorSignatureCheck dev = some (s', unused) := by
  cases hconfig : findNextUsageBlock CONFIG 0 dev.regions 0 0 with
  | none =>
    obtain ⟨s', hget, -⟩ := getNext_without hconfig s
    exact ⟨s', hget⟩
  | some slot =>
    obtain ⟨s', f, k, hget, -, -, hready, hfields | ⟨rfl, -⟩⟩ := getNext_spec htile hconfig s
    · obtain rfl : k = i := by
        rw [← hfields, hready.first] at hfirst
        exact Option.some.inj hfirst
      obtain rfl : f = unused := by rw [← hready.field, hfields, hunused]
      exact ⟨s', hget⟩
    · exact ⟨s', hget⟩

/-- The field is given up when it has dirty sectors; the calls are those of the loops. -/
theorem Ready.invalidate {s₀ : State} (h : Ready dev s₀ f i) (htile : Tiled dev.regions)
    (horder : InOrder s₀.signatureCheck) (hkept : Kept s₀ s) (d : Bool) (hd : d = false → f = unused)
    (hsame : d = false → s.signatureCheck = s₀.signatureCheck) :
    ∃ s', { s with m_fSignatureCheckDirty := d }.invalidateSectorBitField dev = some s' ∧
      s'.erased = s.erased ∧
      ∃ s'', s'.getNextSectorSignatureCheck dev = some (s'', unused) := by
  cases d with
  | false =>
    refine ⟨_, rfl, rfl, getNext_unused htile (i := i) ?_ ?_⟩
    · exact (hsame rfl) ▸ h.first
    · dsimp only
      rw [hsame rfl, h.field, hd rfl]
  | true =>
    obtain ⟨s₁, hset, herased, hunused⟩ := h.setDirtySectorBit
      (s := { s with m_fSignatureCheckDirty := true }) horder hkept.ram hkept.pointer hkept.fields
    obtain ⟨s₂, hget, herased', hunused'⟩ := hunused.getNext htile
    refine ⟨{ s₂ with m_fSignatureCheckDirty := false }, ?_, herased'.trans herased, ?_⟩
    · rw [State.invalidateSectorBitField, if_pos rfl, hset, Option.bind_some, hget]
      rfl
    · obtain ⟨s₃, hnext, -⟩ := @AllUnused.getNext dev { s₂ with m_fSignatureCheckDirty := false }
        hunused' htile
      exact ⟨s₃, hnext⟩

/-- What is taken first: an unused field where there is no block with the configuration, or the first
    valid one of the array. -/
structure Taken (dev : BlockStorageDevice) (s : State) (f : SectorBitField) : Prop where
  clean : s.m_fSignatureCheckDirty = false
  source : findNextUsageBlock CONFIG 0 dev.regions 0 0 = none ∧ f = unused ∨
    ∃ i, Ready dev s f i ∧ InOrder s.signatureCheck

theorem taken (htile : Tiled dev.regions) (horder : InOrder s.signatureCheck) :
    ∃ s₀, s.resetBitFieldManager.getNextSectorSignatureCheck dev = some (s₀, current dev s) ∧
      s₀.erased = s.erased ∧ Taken dev s₀ (current dev s) := by
  cases hconfig : findNextUsageBlock CONFIG 0 dev.regions 0 0 with
  | none =>
    obtain ⟨s₀, hget, herased, hclean, -⟩ := getNext_without hconfig s.resetBitFieldManager
    rw [current, hget]
    exact ⟨s₀, rfl, herased, hclean, Or.inl ⟨hconfig, rfl⟩⟩
  | some slot =>
    obtain ⟨s₀, f, i, hget, herased, hclean, hready, hfields⟩ :=
      getNext_spec htile hconfig s.resetBitFieldManager
    rw [current, hget]
    refine ⟨s₀, rfl, herased, hclean, Or.inr ⟨i, hready, ?_⟩⟩
    rcases hfields with hsame | ⟨-, hreset⟩
    · exact hsame ▸ horder
    · exact hreset ▸ allUnused_unused.inOrder

theorem Taken.invalidate {t : State × Walk} {w : Walk} (h : Taken dev s f) (htile : Tiled dev.regions)
    (hrun : (dirtySectors f).foldlM (eraseDirty dev) (s, w) = some t) :
    ∃ s', (flagged (s.m_fSignatureCheckDirty ||
        (List.finRange c_MaxFieldUnits).any fun u => f u ≠ 0xFFFFFFFF) t).1.invalidateSectorBitField
          dev = some s' ∧
      s'.erased = t.1.erased ∧ ∃ s'', s'.getNextSectorSignatureCheck dev = some (s'', unused) := by
  rw [h.clean, Bool.false_or]
  rcases h.source with ⟨hconfig, rfl⟩ | ⟨i, hready, horder⟩
  · have hnone : ((List.finRange c_MaxFieldUnits).any fun u => unused u ≠ 0xFFFFFFFF) = false := by
      decide
    obtain ⟨s'', hnext, -⟩ := getNext_without hconfig (flagged false t).1
    rw [hnone]
    exact ⟨(flagged false t).1, rfl, rfl, s'', hnext⟩
  · generalize hd : ((List.finRange c_MaxFieldUnits).any fun u => f u ≠ 0xFFFFFFFF) = d
    have hunused : d = false → f = unused := by
      rintro rfl
      funext u
      have hunit := List.any_eq_false.mp hd u (List.mem_finRange u)
      exact of_not_not fun hne => hunit (decide_eq_true hne)
    refine hready.invalidate htile horder (foldlM_eraseDirty_kept hrun).1 d hunused fun hfalse => ?_
    rw [hunused hfalse, dirtySectors_unused] at hrun
    rw [← Option.some.inj hrun]

/-- The walk counts right for all dirty sectors exactly when the check ends, the blocks of the dirty
    sectors are erased, each by the call for it, and no other block is, and the field that comes next
    has no dirty sector. -/
theorem erases_exactly_iff (dev : BlockStorageDevice) (s : State) (htile : Tiled dev.regions)
    (hint : blocks dev.regions < 2 ^ 31) (horder : InOrder s.signatureCheck)
    (hexist : ∀ b ∈ dirtySectors (current dev s), b < blocks dev.regions) :
    ErasesExactly dev s ↔ ∀ b ∈ dirtySectors (current dev s), CountsRight dev b := by
  obtain ⟨s₀, hget, herased, htaken⟩ := taken htile horder
  rw [ErasesExactly]
  generalize current dev s = f at *
  have hsum : 0 + ((route 0 dev.regions 0).map Stop.count).sum < 2 ^ 31 := by
    have hle : ((route 0 dev.regions 0).map Stop.count).sum ≤ blocks dev.regions :=
      route_sum_le htile
    omega
  have hloops := foldlM_eraseDirty_iff (s := (s₀, ⟨0, 0, 0⟩)) standsAt_start hsum
    (dirtySectors_pairwise f) hexist fun b _ => ⟨Nat.zero_le b, rfl⟩
  have hcheck : eraseOnSignatureCheckFail dev s =
      ((dirtySectors f).foldlM (eraseDirty dev) (s₀, ⟨0, 0, 0⟩)).bind fun t =>
        (flagged (s₀.m_fSignatureCheckDirty ||
          (List.finRange c_MaxFieldUnits).any fun u => f u ≠ 0xFFFFFFFF) t).1.invalidateSectorBitField
            dev := by
    rw [eraseOnSignatureCheckFail, hget, Option.bind_some, foldlM_eraseUnit, Option.bind_map]
    rfl
  rw [← forall₂_congr fun b hb => walked_eq_blockAt_iff htile (hexist b hb), ← hloops, hcheck]
  constructor
  · rintro ⟨s', calls, hrun, hcalls, hown, -⟩
    obtain ⟨t, hloop, hrun⟩ := Option.bind_eq_some_iff.mp hrun
    obtain ⟨s'', hrun', hkept, -⟩ := htaken.invalidate htile hloop
    obtain rfl := Option.some.inj (hrun.symm.trans hrun')
    refine ⟨t, calls, hloop, ?_, hown⟩
    rw [← hkept, hcalls, herased]
  · rintro ⟨t, calls, hloop, hcalls, hown⟩
    obtain ⟨s', hrun, hkept, s'', hnext⟩ := htaken.invalidate htile hloop
    refine ⟨s', calls, ?_, ?_, hown, fun b address haddress => erased_iff hown haddress, s'', unused,
      hnext, dirtySectors_unused⟩
    · rw [hloop]
      exact hrun
    · rw [hkept, hcalls, herased]

/-! ### Four blocks -/

/-- Three blocks of code, and one with the configuration, in this order or in the other one -/
def fourBlocks (codeFirst : Bool) : BlockRegionInfo where
  start := 0
  numBlocks := 4
  bytesPerBlock := 4
  blockRanges :=
    if codeFirst then [⟨0x20, 0, 2, by decide⟩, ⟨0x30, 3, 3, by decide⟩]
    else [⟨0x30, 0, 0, Nat.le.refl⟩, ⟨0x20, 1, 3, by decide⟩]
  pos := Nat.succ_pos 3
  fits := by decide
  inside := by
    cases codeFirst with
    | false => decide
    | true => decide

def norFlash (codeFirst : Bool) : BlockStorageDevice where
  supportsXIP := true
  erasedBitsAreZero := false
  regions := [fourBlocks codeFirst]
  apart := List.pairwise_singleton _ _
  program := fun _ old new => old &&& new

def holding (units : Fin c_MaxFieldUnits → UInt32) : State where
  m_signatureCheck := none
  m_skipCfgSectorCheck := unused
  m_fSignatureCheckDirty := false
  m_cfgPhysicalAddress := 0
  m_fUsingRAM := false
  signatureCheck := fun i => if i.val = 0 then units else unused
  erased := []

def dirtyCode : SectorBitField := fun u => if u.val = 0 then 0xFFFFFFF9 else 0xFFFFFFFF

theorem holding_inOrder (units : Fin c_MaxFieldUnits → UInt32) :
    InOrder (holding units).signatureCheck := by
  intro i j hlt _ _
  exact if_neg (Nat.ne_of_gt (Nat.lt_of_le_of_lt (Nat.zero_le i.val) hlt))

theorem norFlash_tiled (codeFirst : Bool) : Tiled (norFlash codeFirst).regions := by
  intro g hg
  obtain rfl := List.mem_singleton.mp hg
  cases codeFirst with
  | false => exact ⟨rfl, rfl, rfl⟩
  | true => exact ⟨rfl, rfl, rfl⟩

theorem dirtySectors_dirtyCode (codeFirst : Bool) :
    dirtySectors (current (norFlash codeFirst) (holding dirtyCode)) = [1, 2] := by
  cases codeFirst with
  | false => decide
  | true => decide

/-- Sectors of the first range are erased. -/
theorem erases_exactly_first_range : ErasesExactly (norFlash true) (holding dirtyCode) := by
  refine (erases_exactly_iff (norFlash true) (holding dirtyCode) (norFlash_tiled true) (by decide)
    (holding_inOrder dirtyCode) ?_).mpr ?_
  · rw [dirtySectors_dirtyCode]
    decide
  · rw [dirtySectors_dirtyCode]
    intro b hb
    have hle : b ≤ 3 := by
      rcases List.mem_pair.mp hb with rfl | rfl
      · decide
      · decide
    refine ⟨[], _, _, rfl, rfl, Or.inl rfl, ?_, Or.inl ?_⟩
    · exact hle
    · exact Nat.lt_of_le_of_lt hle (by decide)

/-- For sector 2 of the second range the block in front of it is erased. -/
theorem second_range_erases_other_block :
    Tiled (norFlash false).regions ∧ InOrder (holding dirtyCode).signatureCheck ∧
      dirtySectors (current (norFlash false) (holding dirtyCode)) = [1, 2] ∧
      ∃ s', eraseOnSignatureCheckFail (norFlash false) (holding dirtyCode) = some s' ∧
        ¬ ∃ c ∈ s'.erased, ((norFlash false).findBlock c).map Prod.fst =
          blockAt (norFlash false).regions 2 := by
  refine ⟨norFlash_tiled false, holding_inOrder dirtyCode, dirtySectors_dirtyCode false, ?_⟩
  have herased : (eraseOnSignatureCheckFail (norFlash false) (holding dirtyCode)).map State.erased =
      some [4, 4] := by decide
  obtain ⟨s', hrun, hcalls⟩ := Option.map_eq_some_iff.mp herased
  refine ⟨s', hrun, ?_⟩
  rw [hcalls]
  decide

end TinyClr.TinyBooter
