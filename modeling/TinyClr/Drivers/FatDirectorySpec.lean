import TinyClr.Drivers.FatDirectory

/-!
# Enumerating and deleting directory entries

`Parse` steps over a directory by what the first slot of a run announces.  `Lists` says what it
finds from a slot on, with one lemma for each kind of slot; the directories in which that is right
are those of a grammar, `WellFormed`.
-/

namespace TinyClr.FatDirectory

variable {dir : Directory} {e : EntryEnumerator} {p q d i n : Nat} {s t : Slot}

/-! ### Which slots belong to which file -/

/-- The short entry of a file, or of the volume label -/
def Slot.Live (s : Slot) : Prop :=
  s.LDIR_Ord ≠ SLOT_DELETED ∧ s.LDIR_Ord ≠ SLOT_EMPTY ∧ ¬ s.IsLong

def BeforeEnd (dir : Directory) (i : Nat) : Prop :=
  ∀ j ≤ i, ∀ s, dir[j]? = some s → s.LDIR_Ord ≠ SLOT_EMPTY

def LiveShort (dir : Directory) (i : Nat) : Prop :=
  (∃ s, dir[i]? = some s ∧ s.Live) ∧ BeforeEnd dir i

def Slot.InRun (s : Slot) (checksum : UInt8) (n k : Nat) : Prop :=
  s.IsLong ∧ s.LDIR_Chksum = checksum ∧
    if k = n then s.IsLast ∧ (s.LDIR_Ord &&& 0x3F).toNat = n else s.LDIR_Ord.toNat = k

structure OwnRun (dir : Directory) (d n : Nat) : Prop where
  pos : 0 < n
  max : n ≤ MAX_LONGENTRY_COUNT
  fits : n ≤ d
  slots : ∃ short, dir[d]? = some short ∧ ∀ k, 0 < k → k ≤ n →
    ∃ s, dir[d - k]? = some s ∧ s.InRun (getShortNameChksum short.DIR_Name) n k

/-- A long-name slot of the file whose short entry is at `d` -/
def OwnSlot (dir : Directory) (d i : Nat) : Prop :=
  ∃ n, OwnRun dir d n ∧ d ≤ i + n ∧ i < d

/-- `DeleteDirectoryEntry` marks the slots of the file, and no others. -/
def DeletesOwn (dir : Directory) (file : FatFile) : Prop :=
  ∃ dir', deleteDirectoryEntry dir file = (true, dir') ∧ ∀ i,
    (i = file.m_dir ∨ OwnSlot dir file.m_dir i → dir'[i]? = (dir[i]?).map Slot.markDeleted) ∧
    (¬ (i = file.m_dir ∨ OwnSlot dir file.m_dir i) → dir'[i]? = dir[i]?)

/-- Enumeration visits the live short entries in front of the end mark, each of them once, and
    deleting a file it has visited marks the slots of that file. -/
structure Agrees (dir : Directory) : Prop where
  once : ((files dir).map FatFile.m_dir).Nodup
  visits : ∀ i, i ∈ (files dir).map FatFile.m_dir ↔ LiveShort dir i
  deletes : ∀ file ∈ files dir, DeletesOwn dir file

/-! ### The enumerator -/

/-- The enumerator is about to return slot `p`. -/
structure At (dir : Directory) (e : EntryEnumerator) (p : Nat) : Prop where
  next : (if e.first then e.index else e.index + 1) = p
  done : e.done = true → e.first = false ∧ dir.length ≤ p

theorem at_initial (dir : Directory) (p : Nat) : At dir (.initial p) p := ⟨rfl, nofun⟩

theorem At.getNext_some (h : At dir e p) (hp : dir[p]? = some s) :
    ∃ e', e.getNext dir = (some s, e') ∧ At dir e' (p + 1) ∧ e'.index = p := by
  obtain ⟨hlt, -⟩ := List.getElem?_eq_some_iff.mp hp
  obtain ⟨hnext, hdone⟩ := h
  have hnot : e.done = false := by
    cases hd : e.done
    · rfl
    · exact absurd (hdone hd).2 (Nat.not_le.mpr hlt)
  rw [EntryEnumerator.getNext]
  by_cases hfirst : e.first = true
  · rw [if_pos hfirst] at hnext ⊢
    refine ⟨{ e with first := false }, by rw [hnext, hp], ⟨?_, ?_⟩, hnext⟩
    · rw [if_neg Bool.false_ne_true, hnext]
    · intro hd
      exact absurd (hnot.symm.trans hd) Bool.false_ne_true
  · rw [if_neg hfirst] at hnext
    rw [if_neg hfirst, hnot, if_neg Bool.false_ne_true, hnext, if_neg (Nat.not_le.mpr hlt), hp]
    refine ⟨{ e with index := p }, by rw [hnot], ⟨?_, ?_⟩, rfl⟩
    · dsimp only
      rw [if_neg hfirst]
    · intro hd
      exact absurd (hnot.symm.trans hd) Bool.false_ne_true

theorem At.getNext_none (h : At dir e p) (hp : dir.length ≤ p) :
    ∃ e', e.getNext dir = (none, e') := by
  obtain ⟨hnext, -⟩ := h
  rw [EntryEnumerator.getNext]
  by_cases hfirst : e.first = true
  · rw [if_pos hfirst] at hnext ⊢
    exact ⟨_, by rw [hnext, List.getElem?_eq_none hp]⟩
  · rw [if_neg hfirst] at hnext ⊢
    split
    · exact ⟨_, rfl⟩
    · rw [hnext, if_pos hp]
      exact ⟨_, rfl⟩

/-! ### Skipping deleted entries -/

theorem skipDeleted_here (h : At dir e p) (hp : dir[p]? = some s)
    (hlive : s.LDIR_Ord ≠ SLOT_DELETED) (fuel : Nat) :
    ∃ e', skipDeleted dir (fuel + 1) e = (some s, e') ∧ At dir e' (p + 1) ∧ e'.index = p := by
  obtain ⟨e', hget, hat, hindex⟩ := h.getNext_some hp
  refine ⟨e', ?_, hat, hindex⟩
  rw [skipDeleted, hget]
  exact if_neg hlive

theorem skipDeleted_end (h : At dir e p) (hp : dir.length ≤ p) (fuel : Nat) :
    ∃ e', skipDeleted dir (fuel + 1) e = (none, e') := by
  obtain ⟨e', hget⟩ := h.getNext_none hp
  exact ⟨e', by rw [skipDeleted, hget]⟩

theorem skipDeleted_deleted (h : At dir e p) (hp : dir[p]? = some s)
    (hdel : s.LDIR_Ord = SLOT_DELETED) :
    ∃ e', At dir e' (p + 1) ∧ ∀ fuel, skipDeleted dir (fuel + 1) e = skipDeleted dir fuel e' := by
  obtain ⟨e', hget, hat, -⟩ := h.getNext_some hp
  refine ⟨e', hat, fun fuel => ?_⟩
  rw [skipDeleted, hget]
  exact if_pos hdel

theorem skipDeleted_fuel (h : At dir e p) {fuel fuel' : Nat} (hfuel : dir.length - p < fuel)
    (hfuel' : dir.length - p < fuel') : skipDeleted dir fuel e = skipDeleted dir fuel' e := by
  induction fuel generalizing e p fuel' with
  | zero => exact absurd hfuel (Nat.not_lt_zero _)
  | succ fuel ih =>
    obtain ⟨fuel', rfl⟩ := Nat.exists_eq_succ_of_ne_zero (Nat.ne_of_gt (Nat.zero_lt_of_lt hfuel'))
    rcases hp : dir[p]? with _ | s
    · obtain ⟨e', hget⟩ := h.getNext_none (List.getElem?_eq_none_iff.mp hp)
      rw [skipDeleted, skipDeleted, hget]
    · obtain ⟨hlt, -⟩ := List.getElem?_eq_some_iff.mp hp
      by_cases hdel : s.LDIR_Ord = SLOT_DELETED
      · obtain ⟨e', hat, hskip⟩ := skipDeleted_deleted h hp hdel
        rw [hskip, Nat.succ_eq_add_one, hskip]
        exact ih hat (by omega) (by omega)
      · obtain ⟨e', hget, -, -⟩ := h.getNext_some hp
        rw [skipDeleted, skipDeleted, hget]
        dsimp only
        rw [if_neg hdel, if_neg hdel]

/-! ### Checking a run -/

def Numbered (dir : Directory) (checksum : UInt8) (i k : Nat) : Prop :=
  ∃ s, dir[i]? = some s ∧ s.LDIR_Chksum = checksum ∧ s.LDIR_Ord.toNat = k

variable {checksum : UInt8}

/-- The loop keeps the count when all the slots are numbered, and takes as many slots anyway. -/
theorem checkRun_spec {checksum : UInt8} :
    ∀ {m : Nat} {e : EntryEnumerator} {q : Nat}, At dir e q → q + i ≤ dir.length →
      ∃ count e', checkRun dir checksum i m e = (some count, e') ∧ At dir e' (q + i) ∧
        ((count = m ∧ ∀ j < i, Numbered dir checksum (q + j) (i - j)) ∨
          (count = 0 ∧ ¬ ∀ j < i, Numbered dir checksum (q + j) (i - j))) := by
  induction i with
  | zero =>
    intro m e q h _
    exact ⟨m, e, rfl, h, Or.inl ⟨rfl, fun j hj => absurd hj (Nat.not_lt_zero j)⟩⟩
  | succ i ih =>
    intro m e q h hfits
    obtain ⟨s, hq⟩ : ∃ s, dir[q]? = some s := ⟨_, List.getElem?_eq_getElem (by omega)⟩
    obtain ⟨e₁, hget, hat, -⟩ := h.getNext_some hq
    have hplace : q + 1 + i = q + (i + 1) := by omega
    have hsplit : (∀ j < i + 1, Numbered dir checksum (q + j) (i + 1 - j)) ↔
        Numbered dir checksum q (i + 1) ∧
          ∀ j < i, Numbered dir checksum (q + 1 + j) (i - j) := by
      constructor
      · refine fun hall => ⟨hall 0 (Nat.succ_pos i), fun j hj => ?_⟩
        have hnext := hall (j + 1) (by omega)
        rwa [show q + (j + 1) = q + 1 + j by omega, show i + 1 - (j + 1) = i - j by omega]
          at hnext
      · rintro ⟨hfirst, hrest⟩ j hj
        rcases j with _ | j
        · exact hfirst
        · rw [show q + (j + 1) = q + 1 + j by omega, show i + 1 - (j + 1) = i - j by omega]
          exact hrest j (by omega)
    rw [checkRun, hget]
    dsimp only
    by_cases hbad : s.LDIR_Chksum ≠ checksum ∨ s.LDIR_Ord.toNat ≠ i + 1
    · obtain ⟨count, e', hrun, hat', hcount⟩ := @ih 0 e₁ (q + 1) hat (by omega)
      refine ⟨count, e', by rw [if_pos hbad, hrun], hplace ▸ hat', Or.inr ⟨?_, fun hall => ?_⟩⟩
      · rcases hcount with ⟨hc, -⟩ | ⟨hc, -⟩
        · exact hc
        · exact hc
      · obtain ⟨t, ht, hsum, hord⟩ := (hsplit.mp hall).1
        obtain rfl : s = t := Option.some.inj (hq.symm.trans ht)
        exact hbad.elim (fun hne => hne hsum) fun hne => hne hord
    · obtain ⟨count, e', hrun, hat', hcount⟩ := @ih m e₁ (q + 1) hat (by omega)
      refine ⟨count, e', by rw [if_neg hbad, hrun], hplace ▸ hat', ?_⟩
      rw [not_or, not_not, not_not] at hbad
      have hfirst : Numbered dir checksum q (i + 1) := ⟨s, hq, hbad⟩
      rw [hsplit]
      exact hcount.imp (fun hc => ⟨hc.1, hfirst, hc.2⟩) fun hc => ⟨hc.1, fun hall => hc.2 hall.2⟩

theorem checkRun_cut :
    ∀ {m : Nat} {e : EntryEnumerator} {q : Nat}, At dir e q → q ≤ dir.length →
      dir.length < q + i → ∃ e', checkRun dir checksum i m e = (none, e') := by
  induction i with
  | zero => exact fun _ hle hlt => absurd hlt (Nat.not_lt.mpr hle)
  | succ i ih =>
    intro m e q h hle hlt
    rcases hq : dir[q]? with _ | s
    · obtain ⟨e₁, hget⟩ := h.getNext_none (List.getElem?_eq_none_iff.mp hq)
      exact ⟨e₁, by rw [checkRun, hget]⟩
    · obtain ⟨hlt', -⟩ := List.getElem?_eq_some_iff.mp hq
      obtain ⟨e₁, hget, hat, -⟩ := h.getNext_some hq
      rw [checkRun, hget]
      dsimp only
      split
      · exact ih hat hlt' (by omega)
      · exact ih hat hlt' (by omega)

/-! ### One call of `Parse` -/

def Slot.announced (s : Slot) : Nat := (s.LDIR_Ord &&& 0x3F).toNat

theorem parse_deleted (h : At dir e p) (hp : dir[p]? = some s)
    (hdel : s.LDIR_Ord = SLOT_DELETED) : ∃ e', At dir e' (p + 1) ∧ parse dir e = parse dir e' := by
  obtain ⟨hlt, -⟩ := List.getElem?_eq_some_iff.mp hp
  obtain ⟨e', hat, hskip⟩ := skipDeleted_deleted h hp hdel
  refine ⟨e', hat, ?_⟩
  rw [parse, parse, hskip, skipDeleted_fuel hat (by omega) (by omega : _ < dir.length + 1)]

theorem parse_end (h : At dir e p)
    (hp : ∀ s, dir[p]? = some s → s.LDIR_Ord = SLOT_EMPTY) : ∃ e', parse dir e = (none, e') := by
  rw [parse]
  rcases hs : dir[p]? with _ | s
  · obtain ⟨e', hskip⟩ := skipDeleted_end h (List.getElem?_eq_none_iff.mp hs) dir.length
    rw [hskip]
    exact ⟨e', rfl⟩
  · have hempty := hp s hs
    obtain ⟨e', hskip, -, -⟩ := skipDeleted_here h hs (by rw [hempty]; decide) dir.length
    rw [hskip]
    dsimp only
    rw [if_pos hempty]
    exact ⟨e', rfl⟩

theorem parse_bare (h : At dir e p) (hp : dir[p]? = some s) (hdel : s.LDIR_Ord ≠ SLOT_DELETED)
    (hempty : s.LDIR_Ord ≠ SLOT_EMPTY) (hlast : ¬ s.IsLast) :
    ∃ e', parse dir e = (some (fileOf p p 0 0 0 s), e') ∧ At dir e' (p + 1) := by
  obtain ⟨e', hskip, hat, hindex⟩ := skipDeleted_here h hp hdel dir.length
  refine ⟨e', ?_, hat⟩
  rw [parse, hskip]
  dsimp only
  rw [if_neg hempty, if_neg hlast, hindex]

theorem parse_cut (h : At dir e p) (hp : dir[p]? = some s) (hdel : s.LDIR_Ord ≠ SLOT_DELETED)
    (hempty : s.LDIR_Ord ≠ SLOT_EMPTY) (hlast : s.IsLast)
    (hcut : MAX_LONGENTRY_COUNT < s.announced ∨ dir.length ≤ p + max s.announced 1) :
    ∃ e', parse dir e = (none, e') := by
  obtain ⟨hlt, -⟩ := List.getElem?_eq_some_iff.mp hp
  obtain ⟨e₁, hskip, hat, -⟩ := skipDeleted_here h hp hdel dir.length
  rw [parse, hskip]
  dsimp only
  rw [if_neg hempty, if_pos hlast, ← Slot.announced]
  by_cases hmax : s.announced > MAX_LONGENTRY_COUNT
  · rw [if_pos hmax]
    exact ⟨e₁, rfl⟩
  rw [if_neg hmax]
  have hcut := hcut.resolve_left hmax
  rcases Nat.lt_or_ge dir.length (p + 1 + (s.announced - 1)) with hshort | hfits
  · obtain ⟨e₂, hrun⟩ : ∃ e', checkRun dir s.LDIR_Chksum (s.announced - 1) s.announced e₁
        = (none, e') := checkRun_cut hat hlt hshort
    rw [hrun]
    exact ⟨e₂, rfl⟩
  · obtain ⟨count, e₂, hrun, hat₂, -⟩ := @checkRun_spec dir _ s.LDIR_Chksum s.announced e₁ _ hat hfits
    obtain ⟨e₃, hget⟩ := hat₂.getNext_none (by omega)
    rw [hrun]
    dsimp only
    rw [hget]
    exact ⟨e₃, rfl⟩

/-- All the slots behind the first one of a run carry their number and the checksum. -/
def Complete (dir : Directory) (p : Nat) (s : Slot) : Prop :=
  ∀ j, 0 < j → j < s.announced → Numbered dir s.LDIR_Chksum (p + j) (s.announced - j)

theorem parse_run (h : At dir e p) (hp : dir[p]? = some s) (hdel : s.LDIR_Ord ≠ SLOT_DELETED)
    (hempty : s.LDIR_Ord ≠ SLOT_EMPTY) (hlast : s.IsLast) (hmax : s.announced ≤ MAX_LONGENTRY_COUNT)
    (hd : d = p + max s.announced 1) (ht : dir[d]? = some t) :
    ∃ count e', parse dir e
        = (some (fileOf p d count s.LDIR_Chksum s.getLongNameLength t), e') ∧ At dir e' (d + 1) ∧
      ((count = s.announced ∧ Complete dir p s) ∨ count = 0 ∧ ¬ Complete dir p s) := by
  obtain ⟨hlt, -⟩ := List.getElem?_eq_some_iff.mp ht
  obtain ⟨e₁, hskip, hat, hindex⟩ := skipDeleted_here h hp hdel dir.length
  obtain ⟨count, e₂, hrun, hat₂, hcount⟩ :=
    @checkRun_spec dir (s.announced - 1) s.LDIR_Chksum s.announced e₁ (p + 1) hat (by omega)
  have hplace : p + 1 + (s.announced - 1) = d := by omega
  obtain ⟨e₃, hget, hat₃, hindex₃⟩ := hat₂.getNext_some (hplace ▸ ht)
  refine ⟨count, e₃, ?_, hplace ▸ hat₃, ?_⟩
  · rw [parse, hskip]
    dsimp only
    rw [if_neg hempty, if_pos hlast, ← Slot.announced, if_neg (Nat.not_lt.mpr hmax), hrun]
    dsimp only
    rw [hget]
    dsimp only
    rw [hindex, hindex₃, hplace]
  · have hiff : (∀ j < s.announced - 1, Numbered dir s.LDIR_Chksum (p + 1 + j)
        (s.announced - 1 - j)) ↔ Complete dir p s := by
      constructor
      · intro hall j hj hlt
        have hone := hall (j - 1) (by omega)
        rwa [show p + 1 + (j - 1) = p + j by omega,
          show s.announced - 1 - (j - 1) = s.announced - j by omega] at hone
      · intro hall j hj
        have hone := hall (j + 1) (Nat.succ_pos j) (by omega)
        rwa [show p + (j + 1) = p + 1 + j by omega,
          show s.announced - (j + 1) = s.announced - 1 - j by omega] at hone
    rwa [hiff] at hcount

/-! ### What is listed from a slot on -/

def Lists (dir : Directory) (p : Nat) (fs : List FatFile) : Prop :=
  ∀ e fuel, At dir e p → dir.length - p < fuel → enumerate dir fuel e = fs

variable {fs : List FatFile}

theorem Lists.files (h : Lists dir 0 fs) : files dir = fs :=
  h _ _ (at_initial dir 0) (Nat.lt_succ_self _)

theorem lists_none (h : ∀ e, At dir e p → ∃ e', parse dir e = (none, e')) : Lists dir p [] := by
  intro e fuel hat hfuel
  obtain ⟨fuel, rfl⟩ := Nat.exists_eq_succ_of_ne_zero (Nat.ne_of_gt (Nat.zero_lt_of_lt hfuel))
  obtain ⟨e', hparse⟩ := h e hat
  rw [Nat.succ_eq_add_one, enumerate, hparse]

variable {file : FatFile}

theorem lists_cons (hpq : p < q) (hq : q ≤ dir.length)
    (h : ∀ e, At dir e p → ∃ e', parse dir e = (some file, e') ∧ At dir e' q)
    (hrest : Lists dir q fs) : Lists dir p (file :: fs) := by
  intro e fuel hat hfuel
  obtain ⟨fuel, rfl⟩ := Nat.exists_eq_succ_of_ne_zero (Nat.ne_of_gt (Nat.zero_lt_of_lt hfuel))
  obtain ⟨e', hparse, hat'⟩ := h e hat
  rw [Nat.succ_eq_add_one, enumerate, hparse]
  dsimp only
  rw [hrest e' fuel hat' (by omega)]

theorem lists_deleted (hp : dir[p]? = some s)
    (hdel : s.LDIR_Ord = SLOT_DELETED) (hrest : Lists dir (p + 1) fs) : Lists dir p fs := by
  intro e fuel hat hfuel
  obtain ⟨hlt, -⟩ := List.getElem?_eq_some_iff.mp hp
  obtain ⟨e', hat', hparse⟩ := parse_deleted hat hp hdel
  obtain ⟨fuel, rfl⟩ := Nat.exists_eq_succ_of_ne_zero (Nat.ne_of_gt (Nat.zero_lt_of_lt hfuel))
  rw [← hrest e' (fuel + 1) hat' (by omega), Nat.succ_eq_add_one, enumerate, enumerate, hparse]

/-- The ways a directory can go on at slot `p`, by what `Parse` does there -/
inductive Next (dir : Directory) (p : Nat) : Prop where
  | ends (h : ∀ s, dir[p]? = some s → s.LDIR_Ord = SLOT_EMPTY)
  | deleted (s : Slot) (hp : dir[p]? = some s) (hdel : s.LDIR_Ord = SLOT_DELETED)
  | bare (s : Slot) (hp : dir[p]? = some s) (hdel : s.LDIR_Ord ≠ SLOT_DELETED)
      (hempty : s.LDIR_Ord ≠ SLOT_EMPTY) (hlast : ¬ s.IsLast)
  | cut (s : Slot) (hp : dir[p]? = some s) (hdel : s.LDIR_Ord ≠ SLOT_DELETED)
      (hempty : s.LDIR_Ord ≠ SLOT_EMPTY) (hlast : s.IsLast)
      (hcut : MAX_LONGENTRY_COUNT < s.announced ∨ dir.length ≤ p + max s.announced 1)
  | run (s t : Slot) (hp : dir[p]? = some s) (hdel : s.LDIR_Ord ≠ SLOT_DELETED)
      (hempty : s.LDIR_Ord ≠ SLOT_EMPTY) (hlast : s.IsLast)
      (hmax : s.announced ≤ MAX_LONGENTRY_COUNT) (ht : dir[p + max s.announced 1]? = some t)

theorem next (dir : Directory) (p : Nat) : Next dir p := by
  rcases hp : dir[p]? with _ | s
  · exact .ends fun s hs => nomatch hp.symm.trans hs
  by_cases hempty : s.LDIR_Ord = SLOT_EMPTY
  · refine .ends fun t ht => ?_
    obtain rfl : s = t := Option.some.inj (hp.symm.trans ht)
    exact hempty
  by_cases hdel : s.LDIR_Ord = SLOT_DELETED
  · exact .deleted s hp hdel
  by_cases hlast : s.IsLast
  · by_cases hmax : MAX_LONGENTRY_COUNT < s.announced
    · exact .cut s hp hdel hempty hlast (Or.inl hmax)
    rcases ht : dir[p + max s.announced 1]? with _ | t
    · exact .cut s hp hdel hempty hlast (Or.inr (List.getElem?_eq_none_iff.mp ht))
    · exact .run s t hp hdel hempty hlast (Nat.not_lt.mp hmax) ht
  · exact .bare s hp hdel hempty hlast

def runFile (p : Nat) (s t : Slot) (count : Nat) : FatFile :=
  fileOf p (p + max s.announced 1) count s.LDIR_Chksum s.getLongNameLength t

theorem lists_run (hp : dir[p]? = some s) (hdel : s.LDIR_Ord ≠ SLOT_DELETED)
    (hempty : s.LDIR_Ord ≠ SLOT_EMPTY) (hlast : s.IsLast)
    (hmax : s.announced ≤ MAX_LONGENTRY_COUNT) (ht : dir[p + max s.announced 1]? = some t)
    {count : Nat} (hcount : (count = s.announced ∧ Complete dir p s) ∨
      count = 0 ∧ ¬ Complete dir p s)
    (hrest : Lists dir (p + max s.announced 1 + 1) fs) :
    Lists dir p (runFile p s t count :: fs) := by
  obtain ⟨hlt, -⟩ := List.getElem?_eq_some_iff.mp ht
  refine lists_cons (by omega) hlt (fun e hat => ?_) hrest
  obtain ⟨count', e', hparse, hat', hcount'⟩ := parse_run hat hp hdel hempty hlast hmax rfl ht
  obtain rfl : count = count' := by
    rcases hcount with ⟨hc, hyes⟩ | ⟨hc, hno⟩
    · rcases hcount' with ⟨hc', -⟩ | ⟨-, hno'⟩
      · exact hc.trans hc'.symm
      · exact absurd hyes hno'
    · rcases hcount' with ⟨-, hyes'⟩ | ⟨hc', -⟩
      · exact absurd hyes' hno
      · exact hc.trans hc'.symm
  exact ⟨e', hparse, hat'⟩

theorem count_spec (dir : Directory) (p : Nat) (s : Slot) :
    ∃ count, (count = s.announced ∧ Complete dir p s) ∨ count = 0 ∧ ¬ Complete dir p s := by
  by_cases h : Complete dir p s
  · exact ⟨s.announced, Or.inl ⟨rfl, h⟩⟩
  · exact ⟨0, Or.inr ⟨rfl, h⟩⟩

theorem lists_exists (dir : Directory) : ∀ (k p : Nat), dir.length - p ≤ k → ∃ fs, Lists dir p fs := by
  intro k
  induction k with
  | zero =>
    intro p hk
    refine ⟨[], lists_none fun e hat => parse_end hat fun s hs => ?_⟩
    obtain ⟨hlt, -⟩ := List.getElem?_eq_some_iff.mp hs
    omega
  | succ k ih =>
    intro p hk
    cases next dir p with
    | ends h => exact ⟨[], lists_none fun e hat => parse_end hat h⟩
    | deleted s hp hdel =>
      obtain ⟨fs, hrest⟩ := ih (p + 1) (by omega)
      exact ⟨fs, lists_deleted hp hdel hrest⟩
    | bare s hp hdel hempty hlast =>
      obtain ⟨hlt, -⟩ := List.getElem?_eq_some_iff.mp hp
      obtain ⟨fs, hrest⟩ := ih (p + 1) (by omega)
      exact ⟨_, lists_cons (Nat.lt_succ_self p) hlt
        (fun e hat => parse_bare hat hp hdel hempty hlast) hrest⟩
    | cut s hp hdel hempty hlast hcut =>
      exact ⟨[], lists_none fun e hat => parse_cut hat hp hdel hempty hlast hcut⟩
    | run s t hp hdel hempty hlast hmax ht =>
      obtain ⟨fs, hrest⟩ := ih (p + max s.announced 1 + 1) (by omega)
      obtain ⟨count, hcount⟩ := count_spec dir p s
      exact ⟨_, lists_run hp hdel hempty hlast hmax ht hcount hrest⟩

/-! ### Deleting -/

theorem deleteSlots_spec :
    ∀ {dir : Directory} {e : EntryEnumerator} {p : Nat}, At dir e p → p + n ≤ dir.length →
      ∃ dir', deleteSlots n dir e = (true, dir') ∧ ∀ i,
        (p ≤ i ∧ i < p + n → dir'[i]? = (dir[i]?).map Slot.markDeleted) ∧
        (¬ (p ≤ i ∧ i < p + n) → dir'[i]? = dir[i]?) := by
  induction n with
  | zero =>
    intro dir e p _ _
    exact ⟨dir, rfl, fun i => ⟨fun hi => by omega, fun _ => rfl⟩⟩
  | succ n ih =>
    intro dir e p hat hle
    obtain ⟨s, hp⟩ : ∃ s, dir[p]? = some s := ⟨_, List.getElem?_eq_getElem (by omega)⟩
    obtain ⟨e', hget, hat', hindex⟩ := hat.getNext_some hp
    have hlength : (dir.set p s.markDeleted).length = dir.length := List.length_set
    have hat₂ : At (dir.set p s.markDeleted) e' (p + 1) := by
      refine ⟨hat'.next, fun hd => ?_⟩
      rw [hlength]
      exact hat'.done hd
    obtain ⟨dir', hrun, hslots⟩ := ih hat₂ (by omega)
    refine ⟨dir', ?_, fun i => ⟨fun hi => ?_, fun hi => ?_⟩⟩
    · rw [deleteSlots, hget]
      dsimp only
      rw [hindex, hrun]
    · by_cases hip : i = p
      · subst hip
        rw [(hslots i).2 (by omega), List.getElem?_set_self (by omega), hp, Option.map_some]
      · rw [(hslots i).1 (by omega), List.getElem?_set_ne (Ne.symm hip)]
    · rw [(hslots i).2 (by omega), List.getElem?_set_ne (by omega)]

theorem deleteDirectoryEntry_spec
    (h : file.m_lDir + file.m_lDirCount < dir.length) :
    ∃ dir', deleteDirectoryEntry dir file = (true, dir') ∧ ∀ i,
      (file.m_lDir ≤ i ∧ i ≤ file.m_lDir + file.m_lDirCount →
        dir'[i]? = (dir[i]?).map Slot.markDeleted) ∧
      (¬ (file.m_lDir ≤ i ∧ i ≤ file.m_lDir + file.m_lDirCount) → dir'[i]? = dir[i]?) := by
  obtain ⟨dir', hrun, hslots⟩ :=
    @deleteSlots_spec (file.m_lDirCount + 1) dir _ _ (at_initial dir file.m_lDir) (by omega)
  refine ⟨dir', hrun, fun i => ⟨fun hi => (hslots i).1 (by omega), fun hi => ?_⟩⟩
  exact (hslots i).2 (by omega)

theorem markDeleted_ne (h : s.LDIR_Ord ≠ SLOT_DELETED) : s.markDeleted ≠ s := by
  intro heq
  refine h ?_
  rw [Slot.LDIR_Ord, ← heq, Slot.markDeleted, Function.update_self]

/-- When the slots from `m_lDir` on are those of the file, it is deleted as it should be. -/
theorem deletesOwn_of_iff (h : file.m_lDir + file.m_lDirCount < dir.length)
    (hown : ∀ i, (file.m_lDir ≤ i ∧ i ≤ file.m_lDir + file.m_lDirCount) ↔
      (i = file.m_dir ∨ OwnSlot dir file.m_dir i)) : DeletesOwn dir file := by
  obtain ⟨dir', hrun, hslots⟩ := deleteDirectoryEntry_spec h
  refine ⟨dir', hrun, fun i => ?_⟩
  rw [← hown i]
  exact hslots i

theorem DeletesOwn.iff (hdeletes : DeletesOwn dir file)
    (h : file.m_lDir + file.m_lDirCount < dir.length) (hi : dir[i]? = some s)
    (hs : s.LDIR_Ord ≠ SLOT_DELETED) :
    (file.m_lDir ≤ i ∧ i ≤ file.m_lDir + file.m_lDirCount) ↔
      (i = file.m_dir ∨ OwnSlot dir file.m_dir i) := by
  obtain ⟨dir', hrun, hslots⟩ := deleteDirectoryEntry_spec h
  obtain ⟨dir'', hrun', hslots'⟩ := hdeletes
  obtain rfl : dir' = dir'' := (Prod.mk.inj (hrun.symm.trans hrun')).2
  have hne : (dir[i]?).map Slot.markDeleted ≠ dir[i]? := by
    rw [hi, Option.map_some]
    exact fun heq => markDeleted_ne hs (Option.some.inj heq)
  constructor
  · intro hin
    by_contra hout
    exact hne (((hslots i).1 hin).symm.trans ((hslots' i).2 hout))
  · intro hin
    by_contra hout
    exact hne (((hslots' i).1 hin).symm.trans ((hslots i).2 hout))

/-! ### Runs -/

theorem Slot.IsLast.ord_ge (h : s.IsLast) : 64 ≤ s.LDIR_Ord.toNat := by
  have hle : (s.LDIR_Ord &&& LAST_LONG_ENTRY).toNat ≤ s.LDIR_Ord.toNat := by
    rw [UInt8.toNat_and]
    exact Nat.and_le_left
  rw [h.1] at hle
  exact hle

theorem Slot.InRun.number {k : Nat} (h : s.InRun checksum n k) (hk : k < n) :
    s.LDIR_Ord.toNat = k := by
  have hord := h.2.2
  rwa [if_neg (Nat.ne_of_lt hk)] at hord

theorem Slot.InRun.last (h : s.InRun checksum n n) :
    s.IsLast ∧ s.announced = n := by
  have hord := h.2.2
  rwa [if_pos rfl] at hord

theorem Slot.InRun.ord_ne {k : Nat} (h : s.InRun checksum n k)
    (hmax : n ≤ MAX_LONGENTRY_COUNT) (hpos : 0 < k) (hk : k ≤ n) :
    s.LDIR_Ord ≠ SLOT_DELETED ∧ s.LDIR_Ord ≠ SLOT_EMPTY := by
  rw [MAX_LONGENTRY_COUNT] at hmax
  rcases Nat.lt_or_eq_of_le hk with hlt | rfl
  · have hord := h.number hlt
    constructor
    · intro heq
      rw [heq] at hord
      exact absurd hord (by rw [show SLOT_DELETED.toNat = 229 from rfl]; omega)
    · intro heq
      rw [heq] at hord
      exact absurd hord (by rw [show SLOT_EMPTY.toNat = 0 from rfl]; omega)
  · obtain ⟨hlast, hcount⟩ := h.last
    constructor
    · intro heq
      rw [Slot.announced, heq, show (SLOT_DELETED &&& 0x3F).toNat = 37 from rfl] at hcount
      omega
    · intro heq
      have hge := hlast.ord_ge
      rw [heq] at hge
      exact absurd hge (by decide)

theorem OwnRun.unique {m : Nat} (h : OwnRun dir d m) (h' : OwnRun dir d n) : m = n := by
  have hle {m n : Nat} (h : OwnRun dir d m) (h' : OwnRun dir d n) : ¬ m < n := by
    intro hlt
    obtain ⟨t, ht, hslots⟩ := h.slots
    obtain ⟨t', ht', hslots'⟩ := h'.slots
    obtain ⟨s, hs, hrun⟩ := hslots m h.pos (Nat.le_refl m)
    obtain ⟨s', hs', hrun'⟩ := hslots' m h.pos (Nat.le_of_lt hlt)
    obtain rfl : s = s' := Option.some.inj (hs.symm.trans hs')
    have hge := hrun.last.1.ord_ge
    have hmax := h.max
    rw [hrun'.number hlt] at hge
    rw [MAX_LONGENTRY_COUNT] at hmax
    omega
  exact Nat.le_antisymm (Nat.not_lt.mp (hle h' h)) (Nat.not_lt.mp (hle h h'))

theorem OwnRun.ownSlot_iff (h : OwnRun dir d n) : OwnSlot dir d i ↔ d ≤ i + n ∧ i < d := by
  constructor
  · rintro ⟨m, hrun, hi⟩
    rwa [hrun.unique h] at hi
  · exact fun hi => ⟨n, h, hi⟩

theorem OwnRun.first (h : OwnRun dir (p + n) n) (ht : dir[p + n]? = some t) :
    ∃ s, dir[p]? = some s ∧ s.LDIR_Ord ≠ SLOT_DELETED ∧ s.LDIR_Ord ≠ SLOT_EMPTY ∧ s.IsLast ∧
      s.announced = n ∧ s.LDIR_Chksum = getShortNameChksum t.DIR_Name ∧ Complete dir p s := by
  obtain ⟨t', ht', hslots⟩ := h.slots
  obtain rfl : t = t' := Option.some.inj (ht.symm.trans ht')
  obtain ⟨s, hs, hrun⟩ := hslots n h.pos (Nat.le_refl n)
  rw [Nat.add_sub_cancel] at hs
  obtain ⟨hdel, hempty⟩ := hrun.ord_ne h.max h.pos (Nat.le_refl n)
  obtain ⟨hlast, hcount⟩ := hrun.last
  refine ⟨s, hs, hdel, hempty, hlast, hcount, hrun.2.1, fun j hj hlt => ?_⟩
  rw [hcount] at hlt ⊢
  obtain ⟨s', hs', hrun'⟩ := hslots (n - j) (by omega) (Nat.sub_le n j)
  rw [show p + n - (n - j) = p + j by omega] at hs'
  exact ⟨s', hs', hrun'.2.1.trans hrun.2.1.symm, hrun'.number (by omega)⟩

theorem OwnRun.slot (h : OwnRun dir (p + n) n) (hlow : p ≤ i) (hhigh : i < p + n) :
    ∃ s, dir[i]? = some s ∧ s.IsLong ∧ s.LDIR_Ord ≠ SLOT_EMPTY := by
  obtain ⟨t, ht, hslots⟩ := h.slots
  obtain ⟨s, hs, hrun⟩ := hslots (p + n - i) (by omega) (by omega)
  rw [show p + n - (p + n - i) = i by omega] at hs
  exact ⟨s, hs, hrun.1, (hrun.ord_ne h.max (by omega) (by omega)).2⟩

theorem ownRun_of_complete (hp : dir[p]? = some s) (hlast : s.IsLast) (hpos : 0 < s.announced)
    (hmax : s.announced ≤ MAX_LONGENTRY_COUNT) (ht : dir[p + s.announced]? = some t)
    (hsum : s.LDIR_Chksum = getShortNameChksum t.DIR_Name) (hcomplete : Complete dir p s)
    (hlong : ∀ i, p ≤ i → i < p + s.announced → ∀ u, dir[i]? = some u → u.IsLong) :
    OwnRun dir (p + s.announced) s.announced := by
  refine ⟨hpos, hmax, Nat.le_add_left _ _, t, ht, fun k hk hle => ?_⟩
  rcases Nat.lt_or_eq_of_le hle with hlt | rfl
  · obtain ⟨u, hu, husum, huord⟩ := hcomplete (s.announced - k) (by omega) (by omega)
    rw [show p + (s.announced - k) = p + s.announced - k by omega] at hu
    refine ⟨u, hu, hlong _ (by omega) (by omega) u hu, husum.trans hsum, ?_⟩
    rw [if_neg (Nat.ne_of_lt hlt), huord]
    omega
  · rw [Nat.add_sub_cancel]
    refine ⟨s, hp, hlast.2, hsum, ?_⟩
    rw [if_pos rfl]
    exact ⟨hlast, rfl⟩

end TinyClr.FatDirectory
