import TinyClr.Drivers.FatEntry
import TinyClr.Drivers.FatShortNameUnique
import TinyClr.Library.MachineInt

/-!
# The fields of new entries

The attributes and the cluster of a new short entry are those that it is made with, a slot of a long
name is no directory, and setting the dates leaves both as they are.  Short names have 11 bytes.
-/

namespace TinyClr.ShortName

/-! ### Short names have 11 bytes -/

theorem setChar_length {name name' : Name} {i : Int} {c : UInt8} (h : setChar name i c = some name') :
    name'.length = name.length := by
  rw [setChar] at h
  split at h
  · rw [← Option.some.inj h, List.length_set]
  · cases h

theorem writeDigits_length : ∀ {fuel : Nat} {name name' : Name} {num : Nat} {i i' : Int},
    writeDigits fuel name num i = some (name', i') → name'.length = name.length := by
  intro fuel
  induction fuel with
  | zero =>
    intro name name' num i i' h
    cases h
  | succ fuel ih =>
    intro name name' num i i' h
    rw [writeDigits] at h
    split at h
    · obtain ⟨name₁, hset, h⟩ := Option.bind_eq_some_iff.mp h
      exact (ih h).trans (setChar_length hset)
    · rw [(Prod.mk.inj (Option.some.inj h)).1]

theorem shiftTail_length : ∀ {fuel : Nat} {name name' : Name} {i shift : Int},
    shiftTail fuel name i shift = some name' → name'.length = name.length := by
  intro fuel
  induction fuel with
  | zero =>
    intro name name' i shift h
    cases h
  | succ fuel ih =>
    intro name name' i shift h
    rw [shiftTail] at h
    split at h
    · split at h
      · obtain ⟨c, -, h⟩ := Option.bind_eq_some_iff.mp h
        obtain ⟨name₁, hset, h⟩ := Option.bind_eq_some_iff.mp h
        exact (ih h).trans (setChar_length hset)
      · obtain ⟨name₁, hset, h⟩ := Option.bind_eq_some_iff.mp h
        exact (ih h).trans (setChar_length hset)
    · rw [Option.some.inj h]

theorem attachNumTail_length {name name' : Name} {num : Nat}
    (h : attachNumTail name num = some name') : name'.length = name.length := by
  obtain ⟨⟨name₁, i⟩, hdigits, h⟩ := Option.bind_eq_some_iff.mp h
  obtain ⟨name₂, htilde, h⟩ := Option.bind_eq_some_iff.mp h
  obtain ⟨⟨i', shift⟩, -, h⟩ := Option.bind_eq_some_iff.mp h
  have hlength : name₂.length = name.length :=
    (setChar_length htilde).trans (writeDigits_length hdigits)
  simp only at h
  split at h
  · exact (shiftTail_length h).trans hlength
  · rw [← Option.some.inj h, hlength]

theorem longToShortName_length {entries : List Entry} {longName : List UInt16} {name : Name}
    (h : longToShortName entries longName = some name) : name.length = SHORTNAME_FULL_SIZE := by
  have hbasis := (generateBasisName_padded longName).length_eq
  rw [longToShortName] at h
  generalize generateBasisName longName = basis at h hbasis
  obtain ⟨⟨needsTail, availableMap⟩, -, h⟩ := Option.bind_eq_some_iff.mp h
  simp only at h
  split at h
  · exact (attachNumTail_length h).trans hbasis
  · rw [← Option.some.inj h, hbasis]

/-- No tail has the number 0, and when a tail is needed the basis has a character. -/
structure InBounds (entries : List Entry) (longName : List UInt16) : Prop where
  noZero : ¬ Exists entries (generateBasisName longName).1 (.number 0)
  base : NeedsTail entries longName → baseOf (generateBasisName longName).1 ≠ []

theorem longToShortName_isSome (entries : List Entry) (longName : List UInt16) :
    (longToShortName entries longName).isSome = true ↔ InBounds entries longName := by
  have hpadded := generateBasisName_padded longName
  by_cases hzero : Exists entries (generateBasisName longName).1 (.number 0)
  · refine iff_of_false ?_ fun h => h.noZero hzero
    rw [longToShortName_eq, collectTails_none hzero]
    exact Bool.false_ne_true
  rcases longToShortName_spec hzero with ⟨hneeds, hrun⟩ | ⟨hneeds, num, hfree, hrun⟩
  · rw [hrun]
    exact iff_of_true rfl ⟨hzero, fun hn => absurd hn hneeds⟩
  have hdigits : (decimal num).length < SHORTNAME_SIZE - 1 :=
    Nat.lt_of_le_of_lt (length_decimal_le hfree.max) (by decide)
  rw [hrun]
  by_cases hbase : baseOf (generateBasisName longName).1 = []
  · refine iff_of_false ?_ fun h => h.base hneeds hbase
    have hshort := hpadded.eq
    rw [hbase] at hshort
    rw [hshort, attachNumTail_empty hdigits]
    exact Bool.false_ne_true
  · have hattach := @attachNumTail_spec _ (extOf (generateBasisName longName).1) num hbase
      hpadded.blank hpadded.length hdigits
    rw [← hpadded.eq] at hattach
    rw [hattach]
    exact iff_of_true rfl ⟨hzero, fun _ => hbase⟩

end TinyClr.ShortName

namespace TinyClr.FatDirectory

open TinyClr.Library

theorem baseName_length : ∀ (count j : Nat) (name : List UInt16),
    (baseName count j name).1.length ≤ count := by
  intro count
  induction count with
  | zero => exact fun _ _ => Nat.le_refl _
  | succ count ih =>
    intro j name
    cases name with
    | nil => exact Nat.zero_le _
    | cons c name =>
      rw [baseName]
      split
      · exact Nat.zero_le _
      · exact Nat.succ_le_succ (ih _ _)

theorem setName_length (name : List UInt16) : (setName name).length = 11 := by
  have hbase := baseName_length 8 0 name
  have hext : (((Slot.skipDot (baseName 8 0 name).2).take 3).map (·.toUInt8)).length ≤ 3 := by
    rw [List.length_map]
    exact List.length_take_le _ _
  rw [setName]
  simp only
  rw [List.length_append, ShortName.length_pad hbase, ShortName.length_pad hext]

/-! ### Fields -/

theorem field_fieldBytes {s : Slot} {i : Fin 32} (value : UInt16) (hlow : s i = value.toUInt8)
    (hhigh : s (i + 1) = (value >>> 8).toUInt8) : s.field i = value := by
  have hlt := value.toNat_lt
  rw [← UInt16.toNat_inj, Slot.field, hlow, hhigh]
  simp only [UInt16.toNat_or, UInt8.toNat_toUInt16, UInt16.toNat_toUInt8, UInt16.toNat_shiftLeft,
    UInt16.toNat_shiftRight, UInt16.reduceToNat, Nat.reduceMod]
  rw [Nat.shiftRight_eq_div_pow, Nat.mod_eq_of_lt (show value.toNat / 2 ^ 8 < 2 ^ 8 by omega),
    Nat.mod_eq_of_lt (show (value.toNat / 2 ^ 8) <<< 8 < 2 ^ 16 by
      rw [Nat.shiftLeft_eq]
      omega), or_shift 8 (Nat.mod_lt _ (by decide))]
  omega

theorem shortSlot_byte {name : List UInt8} (h : name.length = 11) (attributes : UInt8)
    (fstClus k : Nat) (hk : k < 21) :
    shortSlot name attributes fstClus ⟨11 + k, by omega⟩ =
      ([attributes, 0, 0, 0, 0, 0, 0, 0, 0] ++ fieldBytes (.ofNat (fstClus >>> 16)) ++
        [0, 0, 0, 0] ++ fieldBytes (.ofNat fstClus) ++ [0, 0, 0, 0]).getD k 0 := by
  rw [shortSlot, slotOf]
  simp only [List.append_assoc]
  rw [List.getD_eq_getElem?_getD, List.getElem?_append_right (by omega), h,
    Nat.add_sub_cancel_left, ← List.getD_eq_getElem?_getD]

theorem shortSlot_attr {name : List UInt8} (h : name.length = 11) (attributes : UInt8)
    (fstClus : Nat) : (shortSlot name attributes fstClus).DIR_Attr = attributes :=
  shortSlot_byte h attributes fstClus 0 (by decide)

theorem shortSlot_getFstClus {name : List UInt8} (h : name.length = 11) (attributes : UInt8)
    {fstClus : Nat} (hlt : fstClus < 2 ^ 32) :
    (shortSlot name attributes fstClus).getFstClus = fstClus := by
  have hhigh : (shortSlot name attributes fstClus).field 20 = .ofNat (fstClus >>> 16) :=
    field_fieldBytes _ (shortSlot_byte h attributes fstClus 9 (by decide))
      (shortSlot_byte h attributes fstClus 10 (by decide))
  have hlow : (shortSlot name attributes fstClus).field 26 = .ofNat fstClus :=
    field_fieldBytes _ (shortSlot_byte h attributes fstClus 15 (by decide))
      (shortSlot_byte h attributes fstClus 16 (by decide))
  rw [Slot.getFstClus, hhigh, hlow, UInt16.toNat_ofNat', UInt16.toNat_ofNat',
    Nat.shiftRight_eq_div_pow, Nat.or_comm, or_shift 16 (Nat.mod_lt _ (by decide))]
  omega

@[simp] theorem stamp_attr (s : Slot) (now : FatTime) : (s.stamp now).DIR_Attr = s.DIR_Attr := rfl

@[simp] theorem stamp_getFstClus (s : Slot) (now : FatTime) :
    (s.stamp now).getFstClus = s.getFstClus := rfl

@[simp] theorem stamp_stamp (s : Slot) (now : FatTime) : (s.stamp now).stamp now = s.stamp now := by
  funext i
  rw [Slot.stamp]
  split <;> first | rfl | skip
  all_goals simp_all [Slot.stamp]

end TinyClr.FatDirectory
