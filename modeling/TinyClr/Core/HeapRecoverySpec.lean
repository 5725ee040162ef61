import TinyClr.Core.HeapRecovery

/-!
# What recovery leaves of a range

`PrepareForRecovery` walks over whatever a reset left behind.  Where it goes is a function of that
content: `span` is how far it moves from a place, and the places it comes to are those that the
walk `Visits`.  The range is tiled afterwards exactly when no block that stays leaves the range or
has no size.
-/

namespace TinyClr.Recovery

open TinyClr.Library TinyClr.Heap

/-! ### Headers -/

theorem dataType_markAlive (id : UInt32) : dataType (markAlive id) = dataType id := by
  rw [dataType, dataType, markAlive, UInt32.toNat_or, show (256 : Nat) = 2 ^ 8 from rfl,
    Nat.or_mod_two_pow]
  exact Nat.or_zero _

theorem dataSize_markAlive (id : UInt32) : dataSize (markAlive id) = dataSize id := by
  rw [dataSize, dataSize, markAlive, UInt32.toNat_or, Nat.or_div_two_pow]
  exact Nat.or_zero _

theorem dataSize_le (id : UInt32) : dataSize id ≤ HB_MaxSize := by
  have hlt := id.toNat_lt
  rw [dataSize, HB_MaxSize]
  omega

theorem toNat_changeDataType (id : UInt32) (dt : Nat) :
    (changeDataType id dt).toNat = id.toNat / 256 * 256 + dt % 256 := by
  have hlt := id.toNat_lt
  rw [changeDataType]
  exact UInt32.toNat_ofNat_of_lt' (by rw [UInt32.size]; omega)

theorem dataSize_changeDataType (id : UInt32) (dt : Nat) :
    dataSize (changeDataType id dt) = dataSize id := by
  rw [dataSize, dataSize, toNat_changeDataType]
  omega

variable {size : Nat}

theorem toNat_freeBlockId (h : size ≤ HB_MaxSize) :
    (freeBlockId size).toNat = DATATYPE_FREEBLOCK + size * 2 ^ 16 := by
  rw [HB_MaxSize] at h
  rw [freeBlockId]
  exact UInt32.toNat_ofNat_of_lt' (by rw [UInt32.size, DATATYPE_FREEBLOCK]; omega)

theorem dataSize_freeBlockId (h : size ≤ HB_MaxSize) :
    dataSize (freeBlockId size) = size := by
  rw [dataSize, toNat_freeBlockId h, DATATYPE_FREEBLOCK]
  omega

theorem dataType_freeBlockId (h : size ≤ HB_MaxSize) :
    dataType (freeBlockId size) = DATATYPE_FREEBLOCK := by
  rw [dataType, toNat_freeBlockId h, DATATYPE_FREEBLOCK]
  omega

/-! ### The range -/

/-- A range of memory made of heap blocks, which does not lie at the end of the address space, and
    the size of the free blocks it is cut into. -/
structure Range where
  start : Nat
  stop : Nat
  blockSize : Nat
  blocks : ∃ n, stop = start + 3 * n
  blockSize_pos : 0 < blockSize
  blockSize_le : blockSize ≤ HB_MaxSize
  room : stop + 3 * HB_MaxSize < 2 ^ 30

namespace Range

variable (r : Range) (words : Words)

def Kept (ptr : Nat) : Prop := KeptWeak words ptr ∨ KeptArray words r.stop ptr

instance (ptr : Nat) : Decidable (r.Kept words ptr) := inferInstanceAs (Decidable (_ ∨ _))

/-- The size, in heap blocks, of what `PrepareForRecovery` makes of the place `ptr` -/
def sizeAt (ptr : Nat) : Nat :=
  if r.Kept words ptr then dataSize (words ptr) else clip r.stop r.blockSize ptr

def span (ptr : Nat) : Nat := 3 * r.sizeAt words ptr

/-- `PrepareForRecovery` comes to `ptr`. -/
def Reached (ptr : Nat) : Prop := Visits (r.span words) (r.stop ≤ ·) r.start ptr

def headerAt (ptr : Nat) : UInt32 :=
  if r.Kept words ptr then markAlive (words ptr) else freeBlockId (r.sizeAt words ptr)

def blockAt (ptr : Nat) : Words :=
  if KeptWeak words ptr then keepWeak words ptr else words.set ptr (r.headerAt words ptr)

/-- The blocks that stay lie in the range and have a size: a weak reference is not cut off by the
    end of the range, and the size of an array did not wrap around to zero. -/
def Contained : Prop :=
  ∀ ptr, r.Reached words ptr →
    (KeptWeak words ptr → ptr + 12 ≤ r.stop) ∧
    (KeptArray words r.stop ptr → dataSize (words ptr) ≠ 0)

/-- The range `PrepareForRecovery` leaves: the headers tile it, what it keeps lies inside, and
    the memory around it is as it was. -/
def Retiled (words' : Words) : Prop :=
  (∃ xs, Tiles (fun ptr => 3 * dataSize (words' ptr)) r.start xs r.stop ∧
    ∀ ptr ∈ xs, dataType (words' ptr) = DATATYPE_WEAKCLASS ∨
        dataType (words' ptr) = DATATYPE_SZARRAY →
      r.start ≤ ptr ∧ ptr + 3 * dataSize (words' ptr) ≤ r.stop) ∧
  ∀ i, i < r.start ∨ r.stop ≤ i → words' i = words i

def Prepares (words' : Words) : Prop :=
  ∃ fuel, prepareForRecovery r.stop fuel words r.start r.blockSize = some words'

def PreparesWell : Prop := ∃ words', r.Prepares words words' ∧ r.Retiled words words'

variable {r words}

variable {ptr : Nat}

theorem advance_eq (hptr : ptr ≤ r.stop) (hsize : size ≤ HB_MaxSize) :
    advance ptr size = ptr + 3 * size := by
  have hroom := r.room
  rw [advance, Nat.mod_eq_of_lt]
  omega

/-- A place between blocks -/
def Aligned (r : Range) (ptr : Nat) : Prop := ptr ≤ r.stop ∧ ∃ n, r.stop = ptr + 3 * n

theorem aligned_start : r.Aligned r.start := by
  obtain ⟨n, hn⟩ := r.blocks
  exact ⟨by omega, n, hn⟩

theorem Aligned.add (h : r.Aligned ptr) (hle : ptr + 3 * size ≤ r.stop) :
    r.Aligned (ptr + 3 * size) := by
  obtain ⟨-, n, hn⟩ := h
  exact ⟨hle, n - size, by omega⟩

theorem clip_eq (h : r.Aligned ptr) (hlt : ptr < r.stop) :
    0 < clip r.stop r.blockSize ptr ∧ clip r.stop r.blockSize ptr ≤ HB_MaxSize ∧
      ptr + 3 * clip r.stop r.blockSize ptr ≤ r.stop ∧
      (clip r.stop r.blockSize ptr = r.blockSize ∨
        ptr + 3 * clip r.stop r.blockSize ptr = r.stop) := by
  obtain ⟨hle, n, hn⟩ := h
  have hpos := r.blockSize_pos
  have hmax := r.blockSize_le
  rw [clip, advance_eq hle hmax]
  split
  · rename_i hgt
    have hdiv : (r.stop - ptr) / 3 = n := by omega
    rw [hdiv]
    exact ⟨by omega, by omega, by omega, Or.inr (by omega)⟩
  · rename_i hgt
    exact ⟨hpos, hmax, by omega, Or.inl rfl⟩

theorem sizeAt_le (h : r.Aligned ptr) (hlt : ptr < r.stop) :
    r.sizeAt words ptr ≤ HB_MaxSize := by
  rw [sizeAt]
  split
  · exact dataSize_le _
  · exact (clip_eq h hlt).2.1

theorem keptArray_le (hlt : ptr < r.stop) (h : KeptArray words r.stop ptr) :
    ptr + 3 * dataSize (words ptr) ≤ r.stop := by
  have hle := h.2.2.2
  rwa [advance_eq (Nat.le_of_lt hlt) (dataSize_le _)] at hle

theorem not_keptWeak_of_keptArray (h : KeptArray words r.stop ptr) :
    ¬ KeptWeak words ptr := by
  intro hweak
  have hne : DATATYPE_WEAKCLASS ≠ DATATYPE_SZARRAY := by decide
  exact hne (hweak.1.symm.trans h.1)

theorem span_pos (h : r.Aligned ptr) (hlt : ptr < r.stop)
    (harray : KeptArray words r.stop ptr → dataSize (words ptr) ≠ 0) :
    0 < r.span words ptr := by
  have hpos : 0 < r.sizeAt words ptr := by
    rw [sizeAt]
    split
    · rename_i hkept
      rcases hkept with hkept | hkept
      · rw [hkept.2.1]
        decide
      · exact Nat.pos_of_ne_zero (harray hkept)
    · exact (clip_eq h hlt).1
  exact Nat.mul_pos (by decide) hpos

theorem step_contained (h : r.Aligned ptr) (hlt : ptr < r.stop)
    (hweak : KeptWeak words ptr → ptr + 12 ≤ r.stop)
    (harray : KeptArray words r.stop ptr → dataSize (words ptr) ≠ 0) :
    0 < r.span words ptr ∧ ptr + r.span words ptr ≤ r.stop ∧
      r.Aligned (ptr + r.span words ptr) := by
  have hbound : ptr + 3 * r.sizeAt words ptr ≤ r.stop := by
    rw [sizeAt]
    split
    · rename_i hkept
      rcases hkept with hkept | hkept
      · rw [hkept.2.1]
        exact hweak hkept
      · exact keptArray_le hlt hkept
    · exact (clip_eq h hlt).2.2.1
  exact ⟨span_pos h hlt harray, hbound, h.add hbound⟩

theorem tiles_of_contained (hc : r.Contained words) :
    ∃ xs, Tiles (r.span words) r.start xs r.stop := by
  have hwalk : ∀ (n ptr : Nat), r.stop - ptr ≤ n → r.Aligned ptr →
      (∀ x, Visits (r.span words) (r.stop ≤ ·) ptr x → r.Reached words x) →
      ∃ xs, Tiles (r.span words) ptr xs r.stop := by
    intro n
    induction n with
    | zero =>
      intro ptr hn hal _
      have hend : ptr = r.stop := by
        have hle := hal.1
        omega
      exact ⟨[], hend ▸ .nil ptr⟩
    | succ n ih =>
      intro ptr hn hal hreach
      rcases Nat.lt_or_ge ptr r.stop with hlt | hge
      · have hgoes : ¬ r.stop ≤ ptr := Nat.not_le.mpr hlt
        obtain ⟨hweak, harray⟩ := hc ptr (hreach ptr (.here hgoes))
        obtain ⟨hpos, hle, hnext⟩ := step_contained hal hlt hweak harray
        obtain ⟨xs, hxs⟩ := ih (ptr + r.span words ptr) (by omega) hnext
          fun x hx => hreach x (.later hgoes hx)
        exact ⟨ptr :: xs, .cons hpos hxs⟩
      · have hend : ptr = r.stop := Nat.le_antisymm hal.1 hge
        exact ⟨[], hend ▸ .nil ptr⟩
  exact hwalk _ r.start (Nat.le_refl _) aligned_start fun x hx => hx

/-! ### One round -/

variable {words' : Words}

theorem keptWeak_congr (h : ∀ i, ptr ≤ i → words' i = words i) :
    KeptWeak words' ptr ↔ KeptWeak words ptr := by
  rw [KeptWeak, KeptWeak, h ptr (Nat.le_refl ptr), h (ptr + 4) (Nat.le_add_right _ _),
    h (ptr + 10) (Nat.le_add_right _ _)]

theorem keptArray_congr {stop : Nat}
    (h : ∀ i, ptr ≤ i → words' i = words i) :
    KeptArray words' stop ptr ↔ KeptArray words stop ptr := by
  rw [KeptArray, KeptArray, arrayBlocks, arrayBlocks, h ptr (Nat.le_refl ptr),
    h (ptr + 3) (Nat.le_add_right _ _), h (ptr + 4) (Nat.le_add_right _ _)]

variable {i : Nat}

theorem set_of_ne {j : Nat} (value : UInt32) (h : j ≠ i) : words.set i value j = words j :=
  Function.update_of_ne h _ _

theorem set_self (i : Nat) (value : UInt32) : words.set i value i = value :=
  Function.update_self _ _ _

theorem keepWeak_of_ne (h : i ≠ ptr ∧ i ≠ ptr + 1 ∧ i ≠ ptr + 2 ∧ i ≠ ptr + 4 ∧
    i ≠ ptr + 9) : keepWeak words ptr i = words i := by
  rw [keepWeak, set_of_ne _ h.1, set_of_ne _ h.2.2.2.2, set_of_ne _ h.2.2.2.1,
    set_of_ne _ h.2.2.1, set_of_ne _ h.2.1]

theorem keepWeak_self (ptr : Nat) : keepWeak words ptr ptr = markAlive (words ptr) :=
  set_self _ _

theorem blockAt_self (ptr : Nat) : r.blockAt words ptr ptr = r.headerAt words ptr := by
  rw [blockAt]
  split
  · rename_i h
    rw [keepWeak_self, headerAt, if_pos (show r.Kept words ptr from Or.inl h)]
  · exact set_self _ _

theorem blockAt_behind (hpos : 0 < r.span words ptr)
    (hi : ptr + r.span words ptr ≤ i) : r.blockAt words ptr i = words i := by
  rw [blockAt]
  split
  · rename_i h
    rw [span, sizeAt, if_pos (show r.Kept words ptr from Or.inl h), h.2.1,
      weakReferenceBlocks] at hi
    exact keepWeak_of_ne (by omega)
  · exact set_of_ne _ (by omega)

theorem dataSize_headerAt (h : r.Aligned ptr) (hlt : ptr < r.stop) :
    dataSize (r.headerAt words ptr) = r.sizeAt words ptr := by
  rw [headerAt]
  split
  · rename_i hkept
    rw [dataSize_markAlive, sizeAt, if_pos hkept]
  · exact dataSize_freeBlockId (sizeAt_le h hlt)

/-- **One round** writes the block it is at and moves on by its size. -/
theorem prepare_step {words₀ : Words} (h : r.Aligned ptr) (hlt : ptr < r.stop)
    (hsame : ∀ i, ptr ≤ i → words₀ i = words i) :
    ∃ words₁ blockSize₁,
      (∀ fuel, prepareForRecovery r.stop (fuel + 1) words₀ ptr r.blockSize
        = prepareForRecovery r.stop fuel words₁ (ptr + r.span words ptr) blockSize₁) ∧
      (blockSize₁ = r.blockSize ∨ r.stop ≤ ptr + r.span words ptr) ∧
      (∀ i, ptr ≤ i → words₁ i = r.blockAt words ptr i) ∧
      ∀ i, i < ptr → words₁ i = words₀ i := by
  have hmove {size : Nat} (hle : size ≤ HB_MaxSize) : advance ptr size = ptr + 3 * size :=
    advance_eq (Nat.le_of_lt hlt) hle
  have hhead := hsame ptr (Nat.le_refl ptr)
  by_cases hweak : KeptWeak words ptr
  · have hkept : r.Kept words ptr := Or.inl hweak
    refine ⟨keepWeak words₀ ptr, r.blockSize, fun fuel => ?_, Or.inl rfl, ?_, ?_⟩
    · rw [prepareForRecovery, if_pos hlt, if_pos ((keptWeak_congr hsame).mpr hweak),
        hmove (dataSize_le _), hhead, span, sizeAt, if_pos hkept]
    · intro i hi
      rw [blockAt, if_pos hweak, keepWeak, keepWeak, hhead, hsame (ptr + 4) (Nat.le_add_right _ _)]
      simp only [Words.set, Function.update_apply, hsame i hi]
    · intro i hi
      exact keepWeak_of_ne (by omega)
  have hnotWeak : ¬ KeptWeak words₀ ptr := fun hw => hweak ((keptWeak_congr hsame).mp hw)
  by_cases harray : KeptArray words r.stop ptr
  · have hkept : r.Kept words ptr := Or.inr harray
    refine ⟨words₀.set ptr (markAlive (words ptr)), r.blockSize, fun fuel => ?_, Or.inl rfl,
      ?_, ?_⟩
    · rw [prepareForRecovery, if_pos hlt, if_neg hnotWeak,
        if_pos ((keptArray_congr hsame).mpr harray), hmove (dataSize_le _), hhead, span, sizeAt,
        if_pos hkept]
    · intro i hi
      rw [blockAt, if_neg hweak, headerAt, if_pos hkept]
      simp only [Words.set, Function.update_apply, hsame i hi]
    · intro i hi
      exact set_of_ne _ (Nat.ne_of_lt hi)
  · have hkept : ¬ r.Kept words ptr := fun hk => hk.elim hweak harray
    have hsizeAt : r.sizeAt words ptr = clip r.stop r.blockSize ptr := by
      rw [sizeAt, if_neg hkept]
    obtain ⟨-, hmax, -, hlast⟩ := clip_eq h hlt
    refine ⟨words₀.set ptr (freeBlockId (clip r.stop r.blockSize ptr)),
      clip r.stop r.blockSize ptr, fun fuel => ?_, ?_, ?_, ?_⟩
    · rw [prepareForRecovery, if_pos hlt, if_neg hnotWeak,
        if_neg fun ha => harray ((keptArray_congr hsame).mp ha)]
      dsimp only
      rw [hmove hmax, span, hsizeAt]
    · rw [span, hsizeAt]
      exact hlast.imp id fun hend => Nat.le_of_eq hend.symm
    · intro i hi
      rw [blockAt, if_neg hweak, headerAt, if_neg hkept, hsizeAt]
      simp only [Words.set, Function.update_apply, hsame i hi]
    · intro i hi
      exact set_of_ne _ (Nat.ne_of_lt hi)

theorem prepare_stuck {blockSize : Nat} (hlt : ptr < r.stop) :
    ∀ (fuel : Nat) {words' : Words}, KeptArray words' r.stop ptr → dataSize (words' ptr) = 0 →
      prepareForRecovery r.stop fuel words' ptr blockSize = none := by
  intro fuel
  induction fuel with
  | zero => exact fun _ _ => rfl
  | succ fuel ih =>
    intro words' harray hzero
    rw [prepareForRecovery, if_pos hlt, if_neg (not_keptWeak_of_keptArray harray), if_pos harray,
      hzero, advance_eq (Nat.le_of_lt hlt) (Nat.zero_le _), Nat.mul_zero, Nat.add_zero]
    have hhead : words'.set ptr (markAlive (words' ptr)) ptr = markAlive (words' ptr) :=
      set_self _ _
    have hrest (k : Nat) : words'.set ptr (markAlive (words' ptr)) (ptr + (k + 1))
        = words' (ptr + (k + 1)) := set_of_ne _ (by omega)
    refine ih ?_ (by rw [hhead, dataSize_markAlive, hzero])
    rw [KeptArray, arrayBlocks, hhead, dataType_markAlive, dataSize_markAlive, hrest 2, hrest 3]
    exact harray

theorem prepare_inv :
    ∀ (fuel : Nat) {words₀ words' : Words} {ptr blockSize : Nat}, r.Aligned ptr ∨ r.stop ≤ ptr →
      (blockSize = r.blockSize ∨ r.stop ≤ ptr) → (∀ i, ptr ≤ i → words₀ i = words i) →
      prepareForRecovery r.stop fuel words₀ ptr blockSize = some words' →
      (∀ x, Visits (r.span words) (r.stop ≤ ·) ptr x →
        (KeptArray words r.stop x → dataSize (words x) ≠ 0) ∧ r.Aligned x ∧
        ∀ i, x ≤ i → i < x + r.span words x → words' i = r.blockAt words x i) ∧
      ∀ i, i < ptr → words' i = words₀ i := by
  intro fuel
  induction fuel with
  | zero => exact fun _ _ _ hrun => nomatch hrun
  | succ fuel ih =>
    intro words₀ words' ptr blockSize hal hsize hsame hrun
    rcases Nat.lt_or_ge ptr r.stop with hlt | hge
    · have hgoes : ¬ r.stop ≤ ptr := Nat.not_le.mpr hlt
      have hal := hal.resolve_right hgoes
      have harray : KeptArray words r.stop ptr → dataSize (words ptr) ≠ 0 := by
        intro harray hzero
        rw [prepare_stuck hlt (fuel + 1) ((keptArray_congr hsame).mpr harray)
          (by rw [hsame ptr (Nat.le_refl ptr), hzero])] at hrun
        exact nomatch hrun
      obtain ⟨words₁, blockSize₁, heq, hsize₁, hblock, hfront⟩ := prepare_step hal hlt hsame
      rw [hsize.resolve_right hgoes, heq] at hrun
      have hnext : r.Aligned (ptr + r.span words ptr) ∨ r.stop ≤ ptr + r.span words ptr := by
        rcases Nat.le_total r.stop (ptr + r.span words ptr) with hge | hle
        · exact Or.inr hge
        · exact Or.inl (hal.add hle)
      have hpos := span_pos hal hlt harray
      have hsame₁ : ∀ i, ptr + r.span words ptr ≤ i → words₁ i = words i := by
        intro i hi
        rw [hblock i (Nat.le_trans (Nat.le_add_right _ _) hi)]
        exact blockAt_behind hpos hi
      obtain ⟨hvisits, hbefore⟩ := ih hnext hsize₁ hsame₁ hrun
      refine ⟨fun x hx => ?_, fun i hi => ?_⟩
      · cases hx with
        | here _ =>
          refine ⟨harray, hal, fun i hi hend => ?_⟩
          rw [hbefore i hend, hblock i hi]
        | later _ hlater => exact hvisits x hlater
      · rw [hbefore i (Nat.lt_of_lt_of_le hi (Nat.le_add_right _ _)), hfront i hi]
    · rw [prepareForRecovery, if_neg (Nat.not_lt.mpr hge)] at hrun
      cases hrun
      refine ⟨fun x hx => ?_, fun i _ => rfl⟩
      cases hx with
      | here hgoes => exact absurd hge hgoes
      | later hgoes _ => exact absurd hge hgoes

variable {xs : List Nat}

/-- A contained range is walked to its end, and nothing behind it is written. -/
theorem prepare_terminates (htiles : Tiles (r.span words) ptr xs r.stop) :
    ∀ {words₀ : Words} {blockSize : Nat}, r.Aligned ptr →
      (blockSize = r.blockSize ∨ r.stop ≤ ptr) → (∀ i, ptr ≤ i → words₀ i = words i) →
      ∃ fuel words', prepareForRecovery r.stop fuel words₀ ptr blockSize = some words' ∧
        ∀ i, r.stop ≤ i → words' i = words i := by
  generalize hstop : r.stop = stop at htiles
  induction htiles with
  | nil ptr =>
    intro words₀ blockSize _ _ hsame
    exact ⟨1, words₀, by rw [prepareForRecovery, if_neg (Nat.lt_irrefl ptr)], hsame⟩
  | @cons ptr stop xs hpos hrest ih =>
    subst hstop
    intro words₀ blockSize hal hsize hsame
    have hlt : ptr < r.stop := by
      have hle := hrest.le
      omega
    have hgoes : ¬ r.stop ≤ ptr := Nat.not_le.mpr hlt
    obtain ⟨words₁, blockSize₁, heq, hsize₁, hblock, -⟩ := prepare_step hal hlt hsame
    have hbehind : ∀ i, ptr + r.span words ptr ≤ i → words₁ i = words i := by
      intro i hi
      rw [hblock i (Nat.le_trans (Nat.le_add_right _ _) hi)]
      exact blockAt_behind hpos hi
    obtain ⟨fuel, words', hrun, hkeep⟩ := ih rfl (hal.add hrest.le) hsize₁ hbehind
    refine ⟨fuel + 1, words', ?_, hkeep⟩
    rw [hsize.resolve_right hgoes, heq fuel, hrun]

/-! ### The range afterwards -/

structure Prepared (r : Range) (words words' : Words) (xs : List Nat) : Prop where
  tiles : Tiles (r.span words) r.start xs r.stop
  aligned : ∀ x ∈ xs, r.Aligned x
  block : ∀ x ∈ xs, ∀ i, x ≤ i → i < x + r.span words x → words' i = r.blockAt words x i
  around : ∀ i, i < r.start ∨ r.stop ≤ i → words' i = words i

theorem Prepared.goes (h : r.Prepared words words' xs) :
    ∀ x ∈ xs, ¬ r.stop ≤ x := by
  intro x hx
  obtain ⟨-, hpos, hle⟩ := h.tiles.mem hx
  omega

theorem Prepared.header (h : r.Prepared words words' xs) {x : Nat}
    (hx : x ∈ xs) : words' x = r.headerAt words x := by
  have hpos := (h.tiles.mem hx).2.1
  rw [h.block x hx x (Nat.le_refl x) (by omega), blockAt_self]

theorem Prepared.dataSize_eq (h : r.Prepared words words' xs)
    {x : Nat} (hx : x ∈ xs) : 3 * dataSize (words' x) = r.span words x := by
  rw [h.header hx, dataSize_headerAt (h.aligned x hx) (Nat.not_le.mp (h.goes x hx)), span]

theorem prepared_of_run (hc : r.Contained words)
    (hrun : r.Prepares words words') (hbehind : ∀ i, r.stop ≤ i → words' i = words i) :
    ∃ xs, r.Prepared words words' xs := by
  obtain ⟨xs, htiles⟩ := tiles_of_contained hc
  obtain ⟨fuel, hrun⟩ := hrun
  obtain ⟨hvisits, hfront⟩ :=
    prepare_inv fuel (Or.inl aligned_start) (Or.inl rfl) (fun _ _ => rfl) hrun
  have hgoes : ∀ y ∈ xs, ¬ r.stop ≤ y := by
    intro y hy
    obtain ⟨-, hpos, hle⟩ := htiles.mem hy
    omega
  have hreach (x : Nat) (hx : x ∈ xs) :=
    hvisits x ((htiles.mem_iff_visits (Nat.le_refl _) hgoes).mp hx)
  exact ⟨xs, htiles, fun x hx => (hreach x hx).2.1, fun x hx => (hreach x hx).2.2,
    fun i hi => hi.elim (hfront i) (hbehind i)⟩

theorem prepares_of_contained (hc : r.Contained words) :
    ∃ words' xs, r.Prepares words words' ∧ r.Prepared words words' xs := by
  obtain ⟨xs, htiles⟩ := tiles_of_contained hc
  obtain ⟨fuel, words', hrun, hbehind⟩ :=
    prepare_terminates htiles aligned_start (Or.inl rfl) fun _ _ => rfl
  obtain ⟨ys, hp⟩ := prepared_of_run hc ⟨fuel, hrun⟩ hbehind
  exact ⟨words', ys, ⟨fuel, hrun⟩, hp⟩

theorem Prepared.retiled (h : r.Prepared words words' xs) :
    r.Retiled words words' := by
  have htiles := h.tiles.congr fun x hx => h.dataSize_eq hx
  refine ⟨⟨xs, htiles, fun x hx _ => ?_⟩, h.around⟩
  obtain ⟨hle, -, hend⟩ := htiles.mem hx
  exact ⟨hle, hend⟩

/-- **The range is re-tiled** exactly when what stays is contained in it. -/
theorem preparesWell_iff : r.PreparesWell words ↔ r.Contained words := by
  constructor
  · rintro ⟨words', ⟨fuel, hrun⟩, ⟨xs, htiles, -⟩, -⟩ ptr hreach
    obtain ⟨hvisits, -⟩ :=
      prepare_inv fuel (Or.inl aligned_start) (Or.inl rfl) (fun _ _ => rfl) hrun
    have hsizes : ∀ x, r.Reached words x → 3 * dataSize (words' x) = r.span words x := by
      intro x hx
      obtain ⟨harray, hal, hblock⟩ := hvisits x hx
      have hlt : x < r.stop := Nat.not_le.mp hx.goes
      have hpos := span_pos hal hlt harray
      rw [hblock x (Nat.le_refl x) (Nat.lt_add_of_pos_right hpos), blockAt_self,
        dataSize_headerAt hal hlt, span]
    refine ⟨fun hweak => ?_, (hvisits ptr hreach).1⟩
    have hgoes : ∀ y ∈ xs, ¬ r.stop ≤ y := by
      intro y hy
      obtain ⟨-, hpos, hle⟩ := htiles.mem hy
      omega
    have hmem := (htiles.mem_iff_visits (Nat.le_refl _) hgoes).mpr (hreach.congr hsizes)
    have hend := (htiles.mem hmem).2.2
    rw [hsizes ptr hreach, span, sizeAt, if_pos (show r.Kept words ptr from Or.inl hweak),
      hweak.2.1] at hend
    exact hend
  · intro hc
    obtain ⟨words', xs, hprepares, hprepared⟩ := prepares_of_contained hc
    exact ⟨words', hprepares, hprepared.retiled⟩

end Range

end TinyClr.Recovery
