import Mathlib.Data.List.ReduceOption
import TinyClr.Library.Indexed
import TinyClr.Pal.BlockStorageStream

/-!
# The ranges of a usage

The ranges of a usage in the order of the tables, and the two walks over them: `NextStream` goes to
the next one, `PrevStream` to the one before.
-/

namespace TinyClr.BlockStorage

open TinyClr.Library

/-! ### The tables in order -/

def Slot.places (slot : Slot) : List Place :=
  BlockStorage.places slot.device slot.baseAddress slot.length

def rangeEntries (usage d r : Nat) (g : BlockRegionInfo) (k : Nat) (x : BlockRange) :
    List (Option Slot) :=
  if isWanted usage x then [some (slotAt d r k g x)] else []

def regionEntries (usage d r : Nat) (g : BlockRegionInfo) : List (Option Slot) :=
  if g.blockRanges = [] then [none] else indexed (rangeEntries usage d r g) g.blockRanges 0

def deviceEntries (usage d : Nat) (dev : BlockStorageDevice) : List (Option Slot) :=
  if dev.regions = [] then [none] else indexed (regionEntries usage d) dev.regions 0

/-- The ranges of a usage in the order of the tables, with a `none` for each empty table -/
def entries (devices : Devices) (usage : Nat) : List (Option Slot) :=
  indexed (deviceEntries usage) devices 0

def slots (devices : Devices) (usage : Nat) : List Slot := (entries devices usage).reduceOption

structure InTables (devices : Devices) (usage : Nat) (slot : Slot) (dev : BlockStorageDevice)
    (g : BlockRegionInfo) (x : BlockRange) : Prop where
  device : devices[slot.device]? = some dev
  region : dev.regions[slot.regionIndex]? = some g
  range : g.blockRanges[slot.rangeIndex]? = some x
  wanted : isWanted usage x = true
  slot : slot = slotAt slot.device slot.regionIndex slot.rangeIndex g x

def entriesBefore (devices : Devices) (usage : Nat) (slot : Slot) : List (Option Slot) :=
  match devices[slot.device]? with
  | none => []
  | some dev =>
      match dev.regions[slot.regionIndex]? with
      | none => []
      | some g =>
          indexed (deviceEntries usage) (devices.take slot.device) 0 ++
            (indexed (regionEntries usage slot.device) (dev.regions.take slot.regionIndex) 0 ++
              indexed (rangeEntries usage slot.device slot.regionIndex g)
                (g.blockRanges.take slot.rangeIndex) 0)

/-- What the tables have behind a range -/
def entriesAfter (devices : Devices) (usage : Nat) (slot : Slot) : List (Option Slot) :=
  match devices[slot.device]? with
  | none => []
  | some dev =>
      match dev.regions[slot.regionIndex]? with
      | none => []
      | some g =>
          (indexed (rangeEntries usage slot.device slot.regionIndex g)
              (g.blockRanges.drop (slot.rangeIndex + 1)) (slot.rangeIndex + 1) ++
            indexed (regionEntries usage slot.device) (dev.regions.drop (slot.regionIndex + 1))
              (slot.regionIndex + 1)) ++
            indexed (deviceEntries usage) (devices.drop (slot.device + 1)) (slot.device + 1)

def slotsBefore (devices : Devices) (usage : Nat) (slot : Slot) : List Slot :=
  (entriesBefore devices usage slot).reduceOption

def slotsAfter (devices : Devices) (usage : Nat) (slot : Slot) : List Slot :=
  (entriesAfter devices usage slot).reduceOption

variable {i : Nat}

theorem ne_nil_of_getElem? {α : Type*} {l : List α} {x : α} (h : l[i]? = some x) :
    l ≠ [] := by
  rintro rfl
  simp at h

section Walks

variable {devices : Devices} {usage : Nat} {slot : Slot} {dev : BlockStorageDevice}
  {g : BlockRegionInfo} {x : BlockRange}

theorem regionEntries_eq (d r : Nat) (h : g.blockRanges ≠ []) :
    regionEntries usage d r g = indexed (rangeEntries usage d r g) g.blockRanges 0 := if_neg h

theorem deviceEntries_eq (d : Nat) (h : dev.regions ≠ []) :
    deviceEntries usage d dev = indexed (regionEntries usage d) dev.regions 0 := if_neg h

theorem rangeEntries_wanted (d r k : Nat) (h : isWanted usage x = true) :
    rangeEntries usage d r g k x = [some (slotAt d r k g x)] := if_pos h

theorem InTables.entriesBefore_eq (h : InTables devices usage slot dev g x) :
    entriesBefore devices usage slot =
      indexed (deviceEntries usage) (devices.take slot.device) 0 ++
        (indexed (regionEntries usage slot.device) (dev.regions.take slot.regionIndex) 0 ++
          indexed (rangeEntries usage slot.device slot.regionIndex g)
            (g.blockRanges.take slot.rangeIndex) 0) := by
  simp only [entriesBefore, h.device, h.region]

theorem InTables.entriesAfter_eq (h : InTables devices usage slot dev g x) :
    entriesAfter devices usage slot =
      (indexed (rangeEntries usage slot.device slot.regionIndex g)
          (g.blockRanges.drop (slot.rangeIndex + 1)) (slot.rangeIndex + 1) ++
        indexed (regionEntries usage slot.device) (dev.regions.drop (slot.regionIndex + 1))
          (slot.regionIndex + 1)) ++
        indexed (deviceEntries usage) (devices.drop (slot.device + 1)) (slot.device + 1) := by
  simp only [entriesAfter, h.device, h.region]

/-- **A range in the order of the tables** -/
theorem InTables.entries_eq (h : InTables devices usage slot dev g x) :
    entries devices usage =
      entriesBefore devices usage slot ++ some slot :: entriesAfter devices usage slot := by
  rw [h.entriesBefore_eq, h.entriesAfter_eq, entries, indexed_split _ h.device,
    deviceEntries_eq _ (ne_nil_of_getElem? h.region), indexed_split _ h.region,
    regionEntries_eq _ _ (ne_nil_of_getElem? h.range), indexed_split _ h.range,
    rangeEntries_wanted _ _ _ h.wanted, ← h.slot]
  simp only [List.append_assoc, List.cons_append, List.nil_append]

theorem InTables.slots_eq (h : InTables devices usage slot dev g x) :
    slots devices usage =
      slotsBefore devices usage slot ++ slot :: slotsAfter devices usage slot := by
  rw [slots, h.entries_eq, List.reduceOption_append, List.reduceOption_cons_of_some]
  rfl

theorem inTables_of_mem (h : slot ∈ slots devices usage) :
    ∃ dev g x, InTables devices usage slot dev g x := by
  obtain ⟨d, dev, hdev, h⟩ := exists_of_mem_indexed (List.reduceOption_mem_iff.mp h)
  rw [Nat.zero_add, deviceEntries] at h
  split at h
  · exact absurd (List.mem_singleton.mp h) (by simp)
  obtain ⟨r, g, hg, h⟩ := exists_of_mem_indexed h
  rw [Nat.zero_add, regionEntries] at h
  split at h
  · exact absurd (List.mem_singleton.mp h) (by simp)
  obtain ⟨k, x, hx, h⟩ := exists_of_mem_indexed h
  rw [Nat.zero_add, rangeEntries] at h
  split at h
  · rename_i hwanted
    obtain rfl := Option.some.inj (List.mem_singleton.mp h)
    exact ⟨dev, g, x, hdev, hg, hx, hwanted, rfl⟩
  · exact absurd h List.not_mem_nil

/-! ### `NextStream` -/

variable {d j : Nat}

theorem findRange_none {xs : List BlockRange}
    (h : findRange usage d i g xs j = none) : indexed (rangeEntries usage d i g) xs j = [] := by
  induction xs generalizing j with
  | nil => rfl
  | cons x xs ih =>
    rw [findRange] at h
    split at h
    · exact absurd h (by simp)
    · rename_i hwanted
      rw [indexed, ih h, rangeEntries, if_neg hwanted]
      rfl

theorem findRange_some {xs : List BlockRange}
    (h : findRange usage d i g xs j = some slot) :
    ∃ n x, xs[n]? = some x ∧ isWanted usage x = true ∧ slot = slotAt d i (j + n) g x ∧
      indexed (rangeEntries usage d i g) xs j =
        some slot :: indexed (rangeEntries usage d i g) (xs.drop (n + 1)) (j + n + 1) := by
  induction xs generalizing j with
  | nil => exact absurd h (by simp [findRange])
  | cons x xs ih =>
    rw [findRange] at h
    split at h
    · rename_i hwanted
      obtain rfl := Option.some.inj h
      refine ⟨0, x, rfl, hwanted, rfl, ?_⟩
      rw [indexed, rangeEntries_wanted _ _ _ hwanted]
      rfl
    · rename_i hwanted
      obtain ⟨n, x', hx', hwanted', hslot, heq⟩ := ih h
      refine ⟨n + 1, x', hx', hwanted', ?_, ?_⟩
      · rw [hslot, Nat.add_assoc, Nat.add_comm 1 n]
      · rw [indexed, heq, rangeEntries, if_neg hwanted, Nat.add_assoc j 1, Nat.add_comm 1 n]
        rfl

/-- What `FindNextUsageBlock` looks at -/
def front (usage d : Nat) : List BlockRegionInfo → Nat → Nat → List (Option Slot)
  | [], _, _ => []
  | g :: gs, i, j =>
      indexed (rangeEntries usage d i g) (g.blockRanges.drop j) j ++
        indexed (regionEntries usage d) gs (i + 1)

theorem reduceOption_regionEntries (d r : Nat) (g : BlockRegionInfo) :
    (regionEntries usage d r g).reduceOption =
      (indexed (rangeEntries usage d r g) g.blockRanges 0).reduceOption := by
  unfold regionEntries
  split
  · rename_i hnil
    rw [hnil]
    rfl
  · rfl

theorem front_zero (d : Nat) (gs : List BlockRegionInfo) (i : Nat) :
    (front usage d gs i 0).reduceOption = (indexed (regionEntries usage d) gs i).reduceOption := by
  cases gs with
  | nil => rfl
  | cons g gs =>
    rw [front, indexed, List.reduceOption_append, List.reduceOption_append,
      reduceOption_regionEntries, List.drop_zero]

theorem findNextUsageBlock_none {gs : List BlockRegionInfo}
    (h : findNextUsageBlock usage d gs i j = none) : (front usage d gs i j).reduceOption = [] := by
  induction gs generalizing i j with
  | nil => rfl
  | cons g gs ih =>
    rw [findNextUsageBlock] at h
    rcases hfind : findRange usage d i g (g.blockRanges.drop j) j with _ | slot
    · rw [hfind] at h
      rw [front, findRange_none hfind, List.nil_append, ← front_zero]
      exact ih h
    · rw [hfind] at h
      exact absurd h (by simp)

theorem findNextUsageBlock_some {gs : List BlockRegionInfo}
    (h : findNextUsageBlock usage d gs i j = some slot) :
    ∃ n g k x, gs[n]? = some g ∧ g.blockRanges[k]? = some x ∧ isWanted usage x = true ∧
      slot = slotAt d (i + n) k g x ∧ (front usage d gs i j).reduceOption = slot ::
        (indexed (rangeEntries usage d (i + n) g) (g.blockRanges.drop (k + 1)) (k + 1) ++
          indexed (regionEntries usage d) (gs.drop (n + 1)) (i + n + 1)).reduceOption := by
  induction gs generalizing i j with
  | nil => exact absurd h (by simp [findNextUsageBlock])
  | cons g gs ih =>
    rw [findNextUsageBlock] at h
    rcases hfind : findRange usage d i g (g.blockRanges.drop j) j with _ | slot'
    · rw [hfind] at h
      obtain ⟨n, g', k, x, hg', hx, hwanted, hslot, heq⟩ := ih h
      refine ⟨n + 1, g', k, x, hg', hx, hwanted, ?_, ?_⟩
      · rw [hslot, Nat.add_assoc, Nat.add_comm 1 n]
      · rw [front, findRange_none hfind, List.nil_append, ← front_zero, heq, Nat.add_assoc i 1,
          Nat.add_comm 1 n]
        rfl
    · rw [hfind] at h
      obtain rfl := Option.some.inj h
      obtain ⟨n, x, hx, hwanted, hslot, heq⟩ := findRange_some hfind
      rw [List.getElem?_drop] at hx
      refine ⟨0, g, j + n, x, rfl, hx, hwanted, hslot, ?_⟩
      rw [front, heq, List.drop_drop, List.cons_append, List.reduceOption_cons_of_some]
      rfl

/-- What `NextStream` looks at -/
def deviceFront (usage : Nat) : Devices → Nat → Nat → Nat → List (Option Slot)
  | [], _, _, _ => []
  | dev :: devs, d, i, j =>
      front usage d (dev.regions.drop i) i j ++ indexed (deviceEntries usage) devs (d + 1)

theorem reduceOption_deviceEntries (d : Nat) (dev : BlockStorageDevice) :
    (deviceEntries usage d dev).reduceOption =
      (indexed (regionEntries usage d) dev.regions 0).reduceOption := by
  unfold deviceEntries
  split
  · rename_i hnil
    rw [hnil]
    rfl
  · rfl

theorem deviceFront_zero (devs : Devices) (d : Nat) :
    (deviceFront usage devs d 0 0).reduceOption =
      (indexed (deviceEntries usage) devs d).reduceOption := by
  cases devs with
  | nil => rfl
  | cons dev devs =>
    rw [deviceFront, indexed, List.reduceOption_append, List.reduceOption_append,
      reduceOption_deviceEntries, List.drop_zero, front_zero]

variable {xip : Bool}

theorem nextFrom_none {devs : Devices}
    (h : nextFrom usage devs d i j xip = none) : (deviceFront usage devs d i j).reduceOption = [] := by
  induction devs generalizing d i j xip with
  | nil => rfl
  | cons dev devs ih =>
    rw [nextFrom] at h
    rcases hfind : findNextUsageBlock usage d (dev.regions.drop i) i j with _ | slot
    · rw [hfind] at h
      rw [deviceFront, List.reduceOption_append, findNextUsageBlock_none hfind, List.nil_append,
        ← deviceFront_zero]
      exact ih h
    · rw [hfind] at h
      exact absurd h (by simp)

theorem nextFrom_some {devs : Devices} {xip' : Bool}
    (hxip : ∀ dev ∈ devs.head?, xip = dev.supportsXIP)
    (h : nextFrom usage devs d i j xip = some (slot, xip')) :
    ∃ m dev r g k x, devs[m]? = some dev ∧ dev.regions[r]? = some g ∧ g.blockRanges[k]? = some x ∧
      isWanted usage x = true ∧ slot = slotAt (d + m) r k g x ∧ xip' = dev.supportsXIP ∧
      (deviceFront usage devs d i j).reduceOption = slot ::
        ((indexed (rangeEntries usage (d + m) r g) (g.blockRanges.drop (k + 1)) (k + 1) ++
          indexed (regionEntries usage (d + m)) (dev.regions.drop (r + 1)) (r + 1)) ++
          indexed (deviceEntries usage) (devs.drop (m + 1)) (d + m + 1)).reduceOption := by
  induction devs generalizing d i j xip with
  | nil => exact absurd h (by simp [nextFrom])
  | cons dev devs ih =>
    rw [nextFrom] at h
    rcases hfind : findNextUsageBlock usage d (dev.regions.drop i) i j with _ | slot'
    · rw [hfind] at h
      dsimp only at h
      have hnext : ∀ dev' ∈ devs.head?, xipFlag devs xip = dev'.supportsXIP := by
        intro dev' hdev'
        cases devs with
        | nil => exact absurd hdev' (by simp)
        | cons next devs =>
          obtain rfl := Option.some.inj hdev'
          rfl
      obtain ⟨m, dev', r, g, k, x, hdev', hg, hx, hwanted, hslot, hxip', heq⟩ := ih hnext h
      refine ⟨m + 1, dev', r, g, k, x, hdev', hg, hx, hwanted, ?_, hxip', ?_⟩
      · rw [hslot, Nat.add_assoc, Nat.add_comm 1 m]
      · rw [deviceFront, List.reduceOption_append, findNextUsageBlock_none hfind, List.nil_append,
          ← deviceFront_zero, heq, Nat.add_assoc d 1, Nat.add_comm 1 m]
        rfl
    · rw [hfind] at h
      obtain ⟨rfl, rfl⟩ := Prod.mk.inj (Option.some.inj h)
      obtain ⟨n, g, k, x, hg, hx, hwanted, hslot, heq⟩ := findNextUsageBlock_some hfind
      rw [List.getElem?_drop] at hg
      refine ⟨0, dev, i + n, g, k, x, rfl, hg, hx, hwanted, hslot, hxip dev rfl, ?_⟩
      rw [deviceFront, List.reduceOption_append, heq, List.drop_drop,
        List.reduceOption_append (indexed _ _ _ ++ indexed _ _ _)]
      rfl

theorem deviceFront_eq (h : InTables devices usage slot dev g x) :
    deviceFront usage (devices.drop slot.device) slot.device slot.regionIndex
      (slot.rangeIndex + 1) = entriesAfter devices usage slot := by
  rw [h.entriesAfter_eq, drop_eq_cons h.device, deviceFront, drop_eq_cons h.region, front]

variable {s s' : Stream}

structure Stands (devices : Devices) (s : Stream) (dev : BlockStorageDevice) (g : BlockRegionInfo)
    (x : BlockRange) : Prop where
  tables : InTables devices s.usage s.slot dev g x
  index : s.currentIndex ≤ s.slot.length
  xip : s.xip = dev.supportsXIP

theorem Stands.enter (hs : InTables devices s.usage slot dev g x) :
    Stands devices (s.enter slot dev.supportsXIP) dev g x :=
  ⟨hs, Nat.zero_le _, rfl⟩

theorem nextStream_none (hs : Stands devices s dev g x) (h : s.nextStream devices = none) :
    slotsAfter devices s.usage s.slot = [] := by
  rw [Stream.nextStream, Option.map_eq_none_iff] at h
  rw [slotsAfter, ← deviceFront_eq hs.tables]
  exact nextFrom_none h

theorem nextStream_some (hs : Stands devices s dev g x) (h : s.nextStream devices = some s') :
    ∃ slot dev' g' x', s' = s.enter slot dev'.supportsXIP ∧
      InTables devices s.usage slot dev' g' x' ∧
      slotsAfter devices s.usage s.slot = slot :: slotsAfter devices s.usage slot ∧
      slotsBefore devices s.usage slot = slotsBefore devices s.usage s.slot ++ [s.slot] := by
  obtain ⟨⟨slot, xip⟩, hnext, rfl⟩ := Option.map_eq_some_iff.mp h
  have hxip : ∀ dev' ∈ (devices.drop s.slot.device).head?, s.xip = dev'.supportsXIP := by
    intro dev' hdev'
    rw [drop_eq_cons hs.tables.device] at hdev'
    obtain rfl := Option.some.inj hdev'
    exact hs.xip
  obtain ⟨m, dev', r, g', k, x', hdev', hg', hx', hwanted, hslot, rfl, heq⟩ :=
    nextFrom_some hxip hnext
  rw [List.getElem?_drop] at hdev'
  have hdevice : slot.device = s.slot.device + m := by rw [hslot]; rfl
  have hregion : slot.regionIndex = r := by rw [hslot]; rfl
  have hrange : slot.rangeIndex = k := by rw [hslot]; rfl
  have htables : InTables devices s.usage slot dev' g' x' := by
    refine ⟨by rw [hdevice]; exact hdev', by rw [hregion]; exact hg', by rw [hrange]; exact hx',
      hwanted, ?_⟩
    rw [hdevice, hregion, hrange]
    exact hslot
  have hafter : slotsAfter devices s.usage s.slot = slot :: slotsAfter devices s.usage slot := by
    rw [slotsAfter, ← deviceFront_eq hs.tables, heq, slotsAfter, htables.entriesAfter_eq, hdevice,
      hregion, hrange, List.drop_drop]
    rfl
  refine ⟨slot, dev', g', x', rfl, htables, hafter, ?_⟩
  have hsame := hs.tables.slots_eq.symm.trans htables.slots_eq
  rw [hafter] at hsame
  have hsame' : (slotsBefore devices s.usage s.slot ++ [s.slot]) ++
      slot :: slotsAfter devices s.usage slot =
      slotsBefore devices s.usage slot ++ slot :: slotsAfter devices s.usage slot := by
    rw [List.append_assoc]
    exact hsame
  exact (List.append_cancel_right hsame').symm

/-! ### `PrevStream` -/

theorem concat_inj {α : Type*} {xs zs : List α} {y z : α} (ys : List α) (h : xs ++ (ys ++ [y]) = zs ++ [z]) :
    zs = xs ++ ys ∧ y = z := by
  rw [← List.append_assoc] at h
  obtain ⟨hfront, hlast⟩ := List.append_inj' h rfl
  exact ⟨hfront.symm, List.singleton_inj.mp hlast⟩

/-- Ranges below `k`: the last one of the usage, if it is of that usage alone -/
theorem prevRange_spec (usage d r : Nat) (g : BlockRegionInfo) {k : Nat} (hk : k ≤ g.blockRanges.length) :
    (indexed (rangeEntries usage d r g) (g.blockRanges.take k) 0 = [] →
      prevRange usage d r g k = none) ∧
    ∀ es slot, indexed (rangeEntries usage d r g) (g.blockRanges.take k) 0 = es ++ [some slot] →
      slot.usage = usage → prevRange usage d r g k = some slot ∧
        ∃ k' x, g.blockRanges[k']? = some x ∧ isWanted usage x = true ∧ slot = slotAt d r k' g x ∧
          es = indexed (rangeEntries usage d r g) (g.blockRanges.take k') 0 := by
  induction k with
  | zero => exact ⟨fun _ => rfl, fun es slot h => absurd h (by simp [indexed])⟩
  | succ k ih =>
    obtain ⟨hnone, hsome⟩ := ih (Nat.le_of_succ_le hk)
    have hx : g.blockRanges[k]? = some g.blockRanges[k] := List.getElem?_eq_getElem hk
    generalize g.blockRanges[k] = x at hx
    rw [indexed_take_succ _ hx, prevRange, hx]
    dsimp only
    by_cases hwanted : isWanted usage x = true
    · rw [rangeEntries_wanted _ _ _ hwanted]
      refine ⟨fun h => absurd h (by simp), fun es slot h husage => ?_⟩
      obtain ⟨rfl, hlast⟩ := concat_inj [] h
      obtain rfl := Option.some.inj hlast
      refine ⟨if_pos husage, k, x, hx, hwanted, rfl, List.append_nil _⟩
    · have hother : x.getBlockUsage ≠ usage := by
        rintro rfl
        exact hwanted (by simp [isWanted])
      rw [rangeEntries, if_neg hwanted, List.append_nil, if_neg hother]
      exact ⟨hnone, hsome⟩

theorem prevRegion_spec (usage d : Nat) (dev : BlockStorageDevice) {r : Nat} (hr : r ≤ dev.regions.length) :
    (indexed (regionEntries usage d) (dev.regions.take r) 0 = [] →
      prevRegion usage d dev r = .ended) ∧
    ∀ es slot, indexed (regionEntries usage d) (dev.regions.take r) 0 = es ++ [some slot] →
      slot.usage = usage → prevRegion usage d dev r = .found slot dev.supportsXIP ∧
        ∃ r' g k x, dev.regions[r']? = some g ∧ g.blockRanges[k]? = some x ∧
          isWanted usage x = true ∧ slot = slotAt d r' k g x ∧
          es = indexed (regionEntries usage d) (dev.regions.take r') 0 ++
            indexed (rangeEntries usage d r' g) (g.blockRanges.take k) 0 := by
  induction r with
  | zero => exact ⟨fun _ => rfl, fun es slot h => absurd h (by simp [indexed])⟩
  | succ r ih =>
    obtain ⟨hended, hfound⟩ := ih (Nat.le_of_succ_le hr)
    have hg : dev.regions[r]? = some dev.regions[r] := List.getElem?_eq_getElem hr
    generalize dev.regions[r] = g at hg
    rw [indexed_take_succ _ hg, prevRegion, hg]
    dsimp only
    by_cases hempty : g.blockRanges = []
    · rw [regionEntries, if_pos hempty]
      refine ⟨fun h => absurd h (by simp), fun es slot h => ?_⟩
      obtain ⟨-, hlast⟩ := concat_inj [] h
      exact absurd hlast (by simp)
    · obtain ⟨hnone, hsome⟩ := prevRange_spec usage d r g (Nat.le_refl _)
      rw [List.take_length] at hnone hsome
      rw [regionEntries_eq _ _ hempty, if_neg hempty]
      rcases List.eq_nil_or_concat (indexed (rangeEntries usage d r g) g.blockRanges 0) with
        hnil | ⟨es', last, hconcat⟩
      · rw [hnil, List.append_nil, hnone hnil]
        exact ⟨hended, hfound⟩
      · rw [List.concat_eq_append] at hconcat
        rw [hconcat]
        refine ⟨fun h => absurd h (by simp), fun es slot h husage => ?_⟩
        obtain ⟨rfl, rfl⟩ := concat_inj _ h
        obtain ⟨hprev, k, x, hx, hwanted, hslot, rfl⟩ := hsome _ slot hconcat husage
        rw [hprev]
        exact ⟨rfl, r, g, k, x, hg, hx, hwanted, hslot, rfl⟩

theorem prevDevice_spec (usage : Nat) (devices : Devices) (hd : d ≤ devices.length) :
    (indexed (deviceEntries usage) (devices.take d) 0 = [] →
      prevDevice usage devices d = .ended) ∧
    ∀ es slot, indexed (deviceEntries usage) (devices.take d) 0 = es ++ [some slot] →
      slot.usage = usage → ∃ d' dev r g k x,
        prevDevice usage devices d = .found slot dev.supportsXIP ∧ devices[d']? = some dev ∧
          dev.regions[r]? = some g ∧ g.blockRanges[k]? = some x ∧ isWanted usage x = true ∧
          slot = slotAt d' r k g x ∧
          es = indexed (deviceEntries usage) (devices.take d') 0 ++
            (indexed (regionEntries usage d') (dev.regions.take r) 0 ++
              indexed (rangeEntries usage d' r g) (g.blockRanges.take k) 0) := by
  induction d with
  | zero => exact ⟨fun _ => rfl, fun es slot h => absurd h (by simp [indexed])⟩
  | succ d ih =>
    obtain ⟨hended, hfound⟩ := ih (Nat.le_of_succ_le hd)
    have hdev : devices[d]? = some devices[d] := List.getElem?_eq_getElem hd
    generalize devices[d] = dev at hdev
    rw [indexed_take_succ _ hdev, prevDevice, hdev]
    dsimp only
    by_cases hempty : dev.regions = []
    · rw [deviceEntries, if_pos hempty]
      refine ⟨fun h => absurd h (by simp), fun es slot h => ?_⟩
      obtain ⟨-, hlast⟩ := concat_inj [] h
      exact absurd hlast (by simp)
    · obtain ⟨hnone, hsome⟩ := prevRegion_spec usage d dev (Nat.le_refl _)
      rw [List.take_length] at hnone hsome
      rw [deviceEntries_eq _ hempty, if_neg hempty]
      rcases List.eq_nil_or_concat (indexed (regionEntries usage d) dev.regions 0) with
        hnil | ⟨es', last, hconcat⟩
      · rw [hnil, List.append_nil, hnone hnil]
        exact ⟨hended, hfound⟩
      · rw [List.concat_eq_append] at hconcat
        rw [hconcat]
        refine ⟨fun h => absurd h (by simp), fun es slot h husage => ?_⟩
        obtain ⟨rfl, rfl⟩ := concat_inj _ h
        obtain ⟨hprev, r, g, k, x, hg, hx, hwanted, hslot, rfl⟩ := hsome _ slot hconcat husage
        rw [hprev]
        exact ⟨d, dev, r, g, k, x, rfl, hdev, hg, hx, hwanted, hslot, rfl⟩

theorem inTables_of_slotAt {r k : Nat} (hdev : devices[d]? = some dev)
    (hg : dev.regions[r]? = some g) (hx : g.blockRanges[k]? = some x)
    (hwanted : isWanted usage x = true) : InTables devices usage (slotAt d r k g x) dev g x :=
  ⟨hdev, hg, hx, hwanted, rfl⟩

theorem prevStream_of_range (hs : Stands devices s dev g x) (h : prevRange s.usage s.slot.device
    s.slot.regionIndex g s.slot.rangeIndex = some slot) :
    s.prevStream devices = some (some (s.enter slot dev.supportsXIP)) := by
  simp only [Stream.prevStream, hs.tables.device, hs.tables.region, h]

theorem prevStream_of_region (hs : Stands devices s dev g x) (hrange : prevRange s.usage
      s.slot.device s.slot.regionIndex g s.slot.rangeIndex = none)
    (h : prevRegion s.usage s.slot.device dev s.slot.regionIndex = .found slot xip) :
    s.prevStream devices = some (some (s.enter slot xip)) := by
  simp only [Stream.prevStream, hs.tables.device, hs.tables.region, hrange, h]

theorem prevStream_of_device (hs : Stands devices s dev g x) (hrange : prevRange s.usage
      s.slot.device s.slot.regionIndex g s.slot.rangeIndex = none)
    (hregion : prevRegion s.usage s.slot.device dev s.slot.regionIndex = .ended)
    (h : prevDevice s.usage devices s.slot.device = .found slot xip) :
    s.prevStream devices = some (some (s.enter slot xip)) := by
  simp only [Stream.prevStream, hs.tables.device, hs.tables.region, hrange, hregion, h]

theorem prevStream_ended (hs : Stands devices s dev g x) (hrange : prevRange s.usage s.slot.device
      s.slot.regionIndex g s.slot.rangeIndex = none)
    (hregion : prevRegion s.usage s.slot.device dev s.slot.regionIndex = .ended)
    (h : prevDevice s.usage devices s.slot.device = .ended) :
    s.prevStream devices = some none := by
  simp only [Stream.prevStream, hs.tables.device, hs.tables.region, hrange, hregion, h]

/-- **The range before**, unless `PrevStream` comes across an empty table or a range of another
    usage first -/
theorem prevStream_spec (hs : Stands devices s dev g x) :
    (entriesBefore devices s.usage s.slot = [] → s.prevStream devices = some none) ∧
    ∀ es slot, entriesBefore devices s.usage s.slot = es ++ [some slot] → slot.usage = s.usage →
      ∃ dev' g' x', s.prevStream devices = some (some (s.enter slot dev'.supportsXIP)) ∧
        InTables devices s.usage slot dev' g' x' ∧
        entriesBefore devices s.usage slot = es := by
  obtain ⟨hk, -⟩ := List.getElem?_eq_some_iff.mp hs.tables.range
  obtain ⟨hr, -⟩ := List.getElem?_eq_some_iff.mp hs.tables.region
  obtain ⟨hd, -⟩ := List.getElem?_eq_some_iff.mp hs.tables.device
  obtain ⟨hnone, hsome⟩ :=
    prevRange_spec s.usage s.slot.device s.slot.regionIndex g (Nat.le_of_lt hk)
  obtain ⟨hended, hfound⟩ := prevRegion_spec s.usage s.slot.device dev (Nat.le_of_lt hr)
  obtain ⟨hended', hfound'⟩ := prevDevice_spec s.usage devices (Nat.le_of_lt hd)
  rw [hs.tables.entriesBefore_eq]
  rcases List.eq_nil_or_concat (indexed (rangeEntries s.usage s.slot.device s.slot.regionIndex g)
    (g.blockRanges.take s.slot.rangeIndex) 0) with hranges | ⟨es', last, hranges⟩
  · rw [hranges, List.append_nil]
    rcases List.eq_nil_or_concat (indexed (regionEntries s.usage s.slot.device)
      (dev.regions.take s.slot.regionIndex) 0) with hregions | ⟨es', last, hregions⟩
    · rw [hregions, List.append_nil]
      refine ⟨fun h => prevStream_ended hs (hnone hranges) (hended hregions) (hended' h),
        fun es slot h husage => ?_⟩
      obtain ⟨d', dev', r, g', k, x', hback, hdev', hg', hx', hwanted, rfl, rfl⟩ :=
        hfound' es slot h husage
      have htables := inTables_of_slotAt hdev' hg' hx' hwanted
      exact ⟨dev', g', x', prevStream_of_device hs (hnone hranges) (hended hregions) hback, htables,
        htables.entriesBefore_eq⟩
    · rw [List.concat_eq_append] at hregions
      rw [hregions]
      refine ⟨fun h => absurd h (by simp), fun es slot h husage => ?_⟩
      obtain ⟨rfl, rfl⟩ := concat_inj _ h
      obtain ⟨hback, r, g', k, x', hg', hx', hwanted, rfl, rfl⟩ := hfound _ slot hregions husage
      have htables := inTables_of_slotAt hs.tables.device hg' hx' hwanted
      exact ⟨dev, g', x', prevStream_of_region hs (hnone hranges) hback, htables,
        htables.entriesBefore_eq⟩
  · rw [List.concat_eq_append] at hranges
    rw [hranges, ← List.append_assoc]
    refine ⟨fun h => absurd h (by simp), fun es slot h husage => ?_⟩
    obtain ⟨rfl, rfl⟩ := concat_inj _ h
    obtain ⟨hback, k, x', hx', hwanted, rfl, rfl⟩ := hsome _ slot hranges husage
    have htables := inTables_of_slotAt hs.tables.device hs.tables.region hx' hwanted
    refine ⟨dev, g, x', prevStream_of_range hs hback, htables, ?_⟩
    rw [htables.entriesBefore_eq, ← List.append_assoc]
    rfl

end Walks

end TinyClr.BlockStorage
