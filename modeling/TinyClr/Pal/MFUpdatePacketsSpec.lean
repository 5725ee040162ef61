import TinyClr.Pal.MFUpdatePackets
import Mathlib.Data.Set.Card

/-!
# Whether the missing packets are reported

The words are right, and to send the packets that they report completes the update.  The count is
0 always, and without words the first packet that has been written is fatal.
-/

namespace TinyClr.MFUpdate

open TinyClr.Library

variable {h : Header} {written : Set Nat} {free : Int → Prop}

/-! ### Packets -/

def IsPacket (h : Header) (p : Nat) : Prop := p * h.packetSize < h.updateSize

instance (p : Nat) : Decidable (IsPacket h p) :=
  inferInstanceAs (Decidable (p * h.packetSize < h.updateSize))

def packetLength (h : Header) (p : Nat) : Nat := min h.packetSize (h.updateSize - p * h.packetSize)

def InPacket (h : Header) (p : Nat) (b : Int) : Prop :=
  (p * h.packetSize : Nat) ≤ b ∧ b < (p * h.packetSize + packetLength h p : Nat)

/-- The bytes of a storage that are not free are those of the packets in `written`. -/
def Holds (h : Header) (written : Set Nat) (free : Int → Prop) : Prop :=
  ∀ b, free b ↔ ∀ p ∈ written, IsPacket h p → ¬ InPacket h p b

/-- `isErased` says which ranges are free. -/
def Reports (isErased : Int → Int → Bool) (free : Int → Prop) : Prop :=
  ∀ offset len, isErased offset len = true ↔ ∀ b, offset ≤ b → b < offset + len → free b

theorem packetLength_le (p : Nat) : packetLength h p ≤ h.packetSize := Nat.min_le_left _ _

theorem InPacket.unique {p q : Nat} {b : Int} (hp : InPacket h p b)
    (hq : (q * h.packetSize : Nat) ≤ b) (hq' : b < ((q + 1) * h.packetSize : Nat)) : p = q := by
  obtain ⟨hlow, hhigh⟩ := hp
  have hlength := packetLength_le (h := h) p
  have hp' : p * h.packetSize + h.packetSize = (p + 1) * h.packetSize := (Nat.succ_mul _ _).symm
  rcases Nat.lt_trichotomy p q with hlt | heq | hlt
  · have hle : (p + 1) * h.packetSize ≤ q * h.packetSize := Nat.mul_le_mul_right _ hlt
    omega
  · exact heq
  · have hle : (q + 1) * h.packetSize ≤ p * h.packetSize := Nat.mul_le_mul_right _ hlt
    omega

/-- A range that begins like a packet and covers it, but not the next, is free as the packet is. -/
theorem erased_iff {isErased : Int → Int → Bool} (hreports : Reports isErased free)
    (hholds : Holds h written free) {k : Nat} (hk : IsPacket h k) (hsize : 0 < h.packetSize)
    {len : Int} (hlow : packetLength h k ≤ len) (hhigh : len ≤ h.packetSize) :
    isErased (k * h.packetSize : Nat) len = true ↔ k ∉ written := by
  have hpos : 0 < packetLength h k := by
    unfold IsPacket at hk
    unfold packetLength
    omega
  rw [hreports]
  constructor
  · intro hfree hin
    have hbyte : InPacket h k (k * h.packetSize : Nat) := ⟨Int.le_refl _, by omega⟩
    exact (hholds _).mp (hfree _ (Int.le_refl _) (by omega)) k hin hk hbyte
  · intro hout b hb hb'
    refine (hholds b).mpr fun p hp hpacket hin => ?_
    have hnext : k * h.packetSize + h.packetSize = (k + 1) * h.packetSize := (Nat.succ_mul _ _).symm
    have heq : p = k := hin.unique hb (by omega)
    exact hout (heq ▸ hp)

/-! ### One loop -/

section Scan

variable (isErased : Int → Int → Bool) (updateSize : Int)

/-- The two loops as one, over the numbers of the packets -/
def scanFrom : Nat → Nat → Scan → Option Scan
  | 0, _, s => some s
  | n + 1, k, s =>
      if s.offset < updateSize then do
        let s ← scanPacket (some isErased) updateSize (k / 32) (k % 32) s
        scanFrom n (k + 1) s
      else some s

theorem scanFrom_stop {s : Scan} (hstop : ¬ s.offset < updateSize) (n k : Nat) :
    scanFrom isErased updateSize n k s = some s := by
  cases n with
  | zero => rfl
  | succ n => rw [scanFrom, if_neg hstop]

theorem scanFrom_go {s : Scan} (hgoes : s.offset < updateSize) (n k : Nat) :
    scanFrom isErased updateSize (n + 1) k s =
      (scanPacket (some isErased) updateSize (k / 32) (k % 32) s).bind
        (scanFrom isErased updateSize n (k + 1)) := by
  rw [scanFrom, if_pos hgoes]
  rfl

theorem scanFrom_add (m n k : Nat) (s : Scan) :
    scanFrom isErased updateSize (m + n) k s =
      (scanFrom isErased updateSize m k s).bind (scanFrom isErased updateSize n (k + m)) := by
  induction m generalizing k s with
  | zero => rw [Nat.zero_add]; rfl
  | succ m ih =>
    rw [Nat.succ_add]
    by_cases hgoes : s.offset < updateSize
    · have hk : k + 1 + m = k + (m + 1) := by omega
      rw [scanFrom_go isErased updateSize hgoes, scanFrom_go isErased updateSize hgoes,
        Option.bind_assoc]
      simp only [ih, hk]
    · rw [scanFrom_stop isErased updateSize hgoes, scanFrom_stop isErased updateSize hgoes,
        Option.bind_some, scanFrom_stop isErased updateSize hgoes]

theorem scanWord_eq (partIdx n i : Nat) (s : Scan) (hn : n + i ≤ 32) :
    scanWord (some isErased) updateSize partIdx n i s =
      scanFrom isErased updateSize n (32 * partIdx + i) s := by
  induction n generalizing i s with
  | zero => rfl
  | succ n ih =>
    have hdiv : (32 * partIdx + i) / 32 = partIdx := by omega
    have hmod : (32 * partIdx + i) % 32 = i := by omega
    have hrest := fun s => ih (i + 1) s (by omega)
    rw [scanWord, scanFrom, hdiv, hmod]
    simp only [hrest, ← Nat.add_assoc]

theorem scanWords_eq (n partIdx : Nat) (s : Scan) :
    scanWords (some isErased) updateSize n partIdx s =
      scanFrom isErased updateSize (32 * n) (32 * partIdx) s := by
  induction n generalizing partIdx s with
  | zero => rfl
  | succ n ih =>
    have hn : 32 * (n + 1) = 32 + 32 * n := by omega
    have hnext : 32 * (partIdx + 1) = 32 * partIdx + 32 := by omega
    rw [scanWords, hn, scanFrom_add]
    by_cases hgoes : s.offset < updateSize
    · rw [if_pos hgoes, scanWord_eq isErased updateSize partIdx 32 0 s (Nat.le_refl _)]
      simp only [Option.bind_eq_bind, ih, hnext, Nat.add_zero]
    · rw [if_neg hgoes, scanFrom_stop isErased updateSize hgoes, Option.bind_some,
        scanFrom_stop isErased updateSize hgoes]

end Scan

/-! ### The words -/

section Words

variable {isErased : Int → Int → Bool} {updateSize : Int}

/-- The size that the body of the loops takes for its packet -/
def clipped (updateSize : Int) (s : Scan) : Int :=
  if int32 (s.offset + s.pktSize) > updateSize then int32 (updateSize - s.offset) else s.pktSize

theorem scanPacket_words {s : Scan} {bits : Nat → BitVec 32} (hbits : s.pPacketBits = some bits)
    (k : Nat) : ∃ s' bits', scanPacket (some isErased) updateSize (k / 32) (k % 32) s = some s' ∧
      s'.offset = int32 (s.offset + clipped updateSize s) ∧ s'.pktSize = clipped updateSize s ∧
      s'.pPacketBits = some bits' ∧
      Bitmap.bit bits' k = isErased s.offset (clipped updateSize s) ∧
      ∀ j, j ≠ k → Bitmap.bit bits' j = Bitmap.bit bits j := by
  unfold scanPacket
  by_cases herased : isErased s.offset (clipped updateSize s) = true
  · refine ⟨_, Bitmap.setBit bits (k / 32) (k % 32), if_pos herased, rfl, rfl, ?_, ?_, ?_⟩
    · change s.pPacketBits.map _ = _
      rw [hbits, Option.map_some]
    · rw [Bitmap.bit_setBit (by decide), herased, decide_eq_true rfl, Bool.or_true]
    · intro j hj
      rw [Bitmap.bit_setBit (by decide), decide_eq_false hj, Bool.or_false]
  · refine ⟨⟨_, _, s.pCount, some (Bitmap.clearBit bits (k / 32) (k % 32))⟩, _,
      (if_neg herased).trans ?_, rfl, rfl, rfl, ?_, ?_⟩
    · rw [hbits]
      rfl
    · rw [Bitmap.bit_clearBit (by decide), Bool.eq_false_iff.mpr herased, decide_eq_true rfl,
        Bool.not_true, Bool.and_false]
    · intro j hj
      rw [Bitmap.bit_clearBit (by decide), decide_eq_false hj, Bool.not_false, Bool.and_true]

/-- The place of the loops before packet `k` -/
def AtPacket (h : Header) (k : Nat) (s : Scan) : Prop :=
  IsPacket h k → s.offset = (k * h.packetSize : Nat) ∧ s.pktSize = h.packetSize

variable (hsize : 0 < h.packetSize) (hsmall : h.packetSize < 2 ^ 31) (hupdate : h.updateSize < 2 ^ 31)
include hsize hsmall hupdate

/-- The range that is asked about, and where the next packet begins -/
theorem clipped_spec {k : Nat} {s : Scan} (hat : AtPacket h k s) (hk : IsPacket h k) :
    packetLength h k ≤ clipped h.updateSize s ∧ clipped h.updateSize s ≤ h.packetSize ∧
      (IsPacket h (k + 1) → clipped h.updateSize s = h.packetSize ∧
        int32 (s.offset + clipped h.updateSize s) = ((k + 1) * h.packetSize : Nat)) := by
  obtain ⟨hoffset, hpkt⟩ := hat hk
  have hnext : (k + 1) * h.packetSize = k * h.packetSize + h.packetSize := Nat.succ_mul _ _
  unfold IsPacket at *
  unfold packetLength clipped
  rw [hoffset, hpkt, hnext]
  by_cases hfits : k * h.packetSize + h.packetSize < 2 ^ 31
  · rw [int32_eq_self (x := (k * h.packetSize : Nat) + h.packetSize) (by omega) (by omega)]
    split
    · rw [int32_eq_self (by omega) (by omega)]
      omega
    · rw [int32_eq_self (by omega) (by omega)]
      omega
  · rw [int32_eq_sub (x := (k * h.packetSize : Nat) + h.packetSize) (by omega) (by omega),
      if_neg (by omega)]
    omega

theorem scanFrom_words (hreports : Reports isErased free) (hholds : Holds h written free)
    (n k : Nat) {s : Scan} {bits : Nat → BitVec 32} (hbits : s.pPacketBits = some bits)
    (hat : AtPacket h k s) :
    ∃ s' bits', scanFrom isErased h.updateSize n k s = some s' ∧ s'.pPacketBits = some bits' ∧
      (∀ j, j < k ∨ k + n ≤ j → Bitmap.bit bits' j = Bitmap.bit bits j) ∧
      ∀ j, k ≤ j → j < k + n → IsPacket h j → (Bitmap.bit bits' j = true ↔ j ∉ written) := by
  induction n generalizing k s bits with
  | zero => exact ⟨s, bits, rfl, hbits, fun _ _ => rfl, fun j _ _ _ => by omega⟩
  | succ n ih =>
    have hafter : ∀ j, k ≤ j → IsPacket h j → IsPacket h k := by
      intro j hj hpacket
      exact Nat.lt_of_le_of_lt (Nat.mul_le_mul_right _ hj) hpacket
    by_cases hgoes : s.offset < h.updateSize
    · obtain ⟨s', bits', hrun, hoffset, hpkt, hbits', hbit, hothers⟩ :=
        @scanPacket_words isErased h.updateSize s bits hbits k
      have hat' : AtPacket h (k + 1) s' := by
        intro hpacket
        have hk := hafter (k + 1) (Nat.le_succ k) hpacket
        obtain ⟨hsame, hnext⟩ := (clipped_spec hsize hsmall hupdate hat hk).2.2 hpacket
        rw [hoffset, hpkt, hnext, hsame]
        exact ⟨rfl, rfl⟩
      obtain ⟨s'', bits'', hrest, hbits'', hframe, hright⟩ := ih (k + 1) hbits' hat'
      refine ⟨s'', bits'', ?_, hbits'', ?_, ?_⟩
      · rw [scanFrom_go isErased _ hgoes, hrun]
        exact hrest
      · intro j hj
        rw [hframe j (by omega), hothers j (by omega)]
      · intro j hlow hhigh hpacket
        rcases Nat.eq_or_lt_of_le hlow with rfl | hlt
        · obtain ⟨hlength, hlength', -⟩ := clipped_spec hsize hsmall hupdate hat hpacket
          rw [hframe k (Or.inl (Nat.lt_succ_self k)), hbit, (hat hpacket).1]
          exact erased_iff hreports hholds hpacket hsize hlength hlength'
        · exact hright j hlt (by omega) hpacket
    · refine ⟨s, bits, scanFrom_stop isErased _ hgoes _ _, hbits, fun _ _ => rfl, ?_⟩
      intro j hlow _ hpacket
      have hk := hafter j hlow hpacket
      have hoffset := (hat hk).1
      unfold IsPacket at hk
      omega

end Words

theorem scanPacket_null {isErased : Int → Int → Bool} {updateSize : Int} {s : Scan}
    (hbits : s.pPacketBits = none) (herased : isErased s.offset (clipped updateSize s) = false)
    (partIdx i : Nat) : scanPacket (some isErased) updateSize partIdx i s = none := by
  have hwritten : ¬ isErased s.offset (clipped updateSize s) = true := by
    rw [herased]
    exact Bool.false_ne_true
  unfold scanPacket
  refine (if_neg hwritten).trans ?_
  rw [hbits]

/-! ### One call -/

variable {W : Type} {packages : List (Package W)} {isErased : Nat → Option (IsErased W)}
  {unwritten : W → Int → Prop} {s : System W} {updateHandle : Int} {update : Update}
  {package : Package W}

/-- The update is authenticated, and `IsErased` of its package says which bytes are unwritten. -/
structure Opened (packages : List (Package W)) (isErased : Nat → Option (IsErased W))
    (unwritten : W → Int → Prop) (updateHandle : Int) (update : Update) (package : Package W)
    (s : System W) : Prop where
  found : ∃ slot, s.getUpdate updateHandle = some (slot, update)
  authenticated : update.flags.authenticated = true
  provider : providersOf packages update = some package
  storage : package.storage.isSome = true
  erased : ∃ erased, update.providers.bind isErased = some erased ∧
    ∀ w, Reports (fun offset len => erased update.storageHandle offset len w) (unwritten w)

def wordCount (h : Header) (words : Option (Nat → BitVec 32)) (count : Int) : Int :=
  if words.isNone then int32 (int32 h.updateSize + 31) >>> (5 : Nat) else count

theorem getMissingPackets_eq (hopened : Opened packages isErased unwritten updateHandle update
    package s) (words : Option (Nat → BitVec 32)) (count : Int) :
    ∃ isErased', Reports isErased' (unwritten s.world) ∧
      getMissingPackets packages isErased s updateHandle words (some count) =
        (scanFrom isErased' (int32 update.header.updateSize)
          (32 * (wordCount update.header words count).toNat) 0
          ⟨0, int32 update.header.packetSize, 0, words⟩).map fun scanned =>
            ⟨true, some 0, scanned.pPacketBits⟩ := by
  obtain ⟨⟨slot, hfound⟩, hauth, hprovider, hstorage, erased, herased, hreports⟩ := hopened
  refine ⟨_, hreports s.world, ?_⟩
  rw [← Nat.mul_zero 32, ← scanWords_eq, Nat.mul_zero]
  unfold getMissingPackets
  simp only [hfound, hprovider, hauth, herased, Option.isNone_eq_false_iff.mpr hstorage,
    Bool.false_eq_true, if_false, Bool.not_true, Option.map_some, wordCount]
  generalize scanWords _ _ _ _ _ = scanned
  cases scanned with
  | none => rfl
  | some scanned => rfl

/-- The words supplied, or the packet itself when there are none -/
def Covered (words : Option (Nat → BitVec 32)) (count : Int) (p : Nat) : Prop :=
  words.isSome = true → (p / 32 : Nat) < count

def missing (h : Header) (written : Set Nat) (words : Option (Nat → BitVec 32)) (count : Int) :
    Set Nat := {p | IsPacket h p ∧ Covered words count p ∧ p ∉ written}

/-- The words report the missing packets, and those behind them are left alone. -/
def WordsExact (h : Header) (written : Set Nat) (count : Int) :
    Option (Nat → BitVec 32) → Option (Nat → BitVec 32) → Prop
  | none, none => True
  | some bits, some bits' =>
      (∀ p, IsPacket h p → (p / 32 : Nat) < count → (Bitmap.bit bits' p = true ↔ p ∉ written)) ∧
        ∀ w : Nat, count ≤ w → bits' w = bits w
  | _, _ => False

/-- The call returns, with the count and the words as they should be. -/
def Exact (h : Header) (written : Set Nat) (words : Option (Nat → BitVec 32)) (count : Int)
    (r : Option Missing) : Prop :=
  ∃ m, r = some m ∧ m.result = true ∧
    m.pCount = some ((missing h written words count).ncard : Int) ∧
    WordsExact h written count words m.pPacketBits

/-- What the walk does to the words does no harm: there are none to begin with, or nothing to walk
over, or the packets are walked over, or there was nothing to clear. -/
def Harmless (h : Header) (count : Int) : Option (Nat → BitVec 32) → Prop
  | none => h.updateSize = 0 ∨ 2 ^ 31 - 31 ≤ h.updateSize
  | some bits => h.updateSize < 2 ^ 31 ∨
      ∀ p, IsPacket h p → (p / 32 : Nat) < count → Bitmap.bit bits p = false

theorem int32_size {n : Nat} (h : n < 2 ^ 31) : int32 n = n := int32_eq_self (by omega) (by omega)

theorem int32_size_neg {n : Nat} (h : 2 ^ 31 ≤ n) (h' : n < 2 ^ 32) : int32 n < 0 := by
  rw [int32_eq_sub (by omega) (by omega)]
  omega

theorem finite_missing (hsize : 0 < h.packetSize) (words : Option (Nat → BitVec 32)) (count : Int) :
    (missing h written words count).Finite := by
  refine (Set.finite_lt_nat h.updateSize).subset ?_
  rintro p ⟨hp, -⟩
  exact Nat.lt_of_le_of_lt (Nat.le_mul_of_pos_right p hsize) hp

theorem scanFrom_start_stop (isErased : Int → Int → Bool) {updateSize : Int}
    (hstop : updateSize ≤ 0) (n : Nat) (pktSize : Int) (words : Option (Nat → BitVec 32)) :
    scanFrom isErased updateSize n 0 ⟨0, pktSize, 0, words⟩ = some ⟨0, pktSize, 0, words⟩ := by
  have hnot : ¬ (⟨0, pktSize, 0, words⟩ : Scan).offset < updateSize := Int.not_lt.mpr hstop
  exact scanFrom_stop isErased updateSize hnot n 0

theorem wordCount_none_pos (hpos : 0 < h.updateSize) (hfits : h.updateSize < 2 ^ 31 - 31)
    (count : Int) : 0 < (wordCount h none count).toNat := by
  have hcount : wordCount h none count = ((h.updateSize : Int) + 31) / 2 ^ 5 := by
    unfold wordCount
    rw [if_pos Option.isNone_none, int32_size (by omega), int32_eq_self (by omega) (by omega),
      Int.shiftRight_eq_div_pow]
    rfl
  rw [hcount]
  omega

theorem scanFrom_none_idle (isErased : Int → Int → Bool) (hlarge : h.updateSize < 2 ^ 32)
    (hidle : h.updateSize = 0 ∨ 2 ^ 31 - 31 ≤ h.updateSize) (count pktSize : Int) :
    scanFrom isErased (int32 h.updateSize) (32 * (wordCount h none count).toNat) 0
        ⟨0, pktSize, 0, none⟩ = some ⟨0, pktSize, 0, none⟩ := by
  by_cases hsigned : h.updateSize < 2 ^ 31
  · rcases hidle with hzero | hhigh
    · rw [hzero]
      exact scanFrom_start_stop isErased (by decide) _ _ _
    · have hcount : wordCount h none count = ((h.updateSize : Int) + 31 - 2 ^ 32) / 2 ^ 5 := by
        unfold wordCount
        rw [if_pos Option.isNone_none, int32_size hsigned, int32_eq_sub (by omega) (by omega),
          Int.shiftRight_eq_div_pow]
        rfl
      have hzero : (wordCount h none count).toNat = 0 := by
        rw [hcount]
        omega
      rw [hzero]
      rfl
  · exact scanFrom_start_stop isErased (int32_size_neg (Nat.le_of_not_lt hsigned) hlarge).le _ _ _

variable {words : Option (Nat → BitVec 32)}

theorem Exact.none_missing {count : Int} {m : Missing}
    (hexact : Exact h written words count (some m)) (hcount : m.pCount = some 0)
    (hfinite : (missing h written words count).Finite) : missing h written words count = ∅ := by
  obtain ⟨m', hm, -, hm', -⟩ := hexact
  obtain rfl := Option.some.inj hm
  refine (Set.ncard_eq_zero hfinite).mp ?_
  exact_mod_cast (Option.some.inj (hcount.symm.trans hm')).symm

theorem Exact.of_none_missing {words' : Option (Nat → BitVec 32)} {count : Int}
    (hnone : missing h written words count = ∅) (hwords : WordsExact h written count words words') :
    Exact h written words count (some ⟨true, some 0, words'⟩) := by
  refine ⟨_, rfl, rfl, ?_, hwords⟩
  rw [hnone, Set.ncard_empty]
  rfl

section Call

variable {count : Int}
  (hopened : Opened packages isErased unwritten updateHandle update package s)
  (hholds : Holds update.header written (unwritten s.world))
  (hsize : 0 < update.header.packetSize) (hsmall : update.header.packetSize < 2 ^ 31)
include hopened hholds hsize hsmall

theorem wordsExact_of_small (hupdate : update.header.updateSize < 2 ^ 31)
    (bits : Nat → BitVec 32) :
    ∃ bits', getMissingPackets packages isErased s updateHandle (some bits) (some count) =
        some ⟨true, some 0, some bits'⟩ ∧
      WordsExact update.header written count (some bits) (some bits') := by
  obtain ⟨isErased', hreports, hrun⟩ := getMissingPackets_eq hopened (some bits) count
  have hat : AtPacket update.header 0 ⟨0, update.header.packetSize, 0, some bits⟩ := by
    intro _
    rw [Nat.zero_mul]
    exact ⟨rfl, rfl⟩
  obtain ⟨scanned, bits', hscan, hbits', hframe, hright⟩ :=
    scanFrom_words hsize hsmall hupdate hreports hholds (32 * count.toNat) 0 rfl hat
  have hwords : wordCount update.header (some bits) count = count := rfl
  refine ⟨bits', ?_, ?_, ?_⟩
  · rw [hrun, hwords, int32_size hupdate, int32_size hsmall, hscan, Option.map_some, hbits']
  · intro p hp hcovered
    exact hright p (Nat.zero_le p) (by omega) hp
  · intro w hw
    refine Bitmap.word_eq fun q hq _ => hframe q (Or.inr ?_)
    omega

theorem exact_some_iff (hlarge : update.header.updateSize < 2 ^ 32) (bits : Nat → BitVec 32) :
    Exact update.header written (some bits) count
        (getMissingPackets packages isErased s updateHandle (some bits) (some count)) ↔
      missing update.header written (some bits) count = ∅ ∧
        Harmless update.header count (some bits) := by
  have hfinite := @finite_missing update.header written hsize (some bits) count
  by_cases hupdate : update.header.updateSize < 2 ^ 31
  · obtain ⟨bits', hrun, hexact⟩ := wordsExact_of_small hopened hholds hsize hsmall hupdate bits
    rw [hrun]
    constructor
    · intro h
      exact ⟨h.none_missing rfl hfinite, Or.inl hupdate⟩
    · rintro ⟨hnone, -⟩
      exact Exact.of_none_missing hnone hexact
  · obtain ⟨isErased', -, hrun⟩ := getMissingPackets_eq hopened (some bits) count
    rw [hrun, scanFrom_start_stop isErased' (int32_size_neg (Nat.le_of_not_lt hupdate) hlarge).le,
      Option.map_some]
    have hin (hnone : missing update.header written (some bits) count = ∅) {p : Nat}
        (hp : IsPacket update.header p) (hcovered : (p / 32 : Nat) < count) : p ∈ written := by
      by_contra hout
      have hmem : p ∈ missing update.header written (some bits) count :=
        ⟨hp, fun _ => hcovered, hout⟩
      rw [hnone] at hmem
      exact hmem
    constructor
    · intro h
      have hnone := h.none_missing rfl hfinite
      obtain ⟨m, hm, -, -, hwords⟩ := h
      obtain rfl := Option.some.inj hm
      refine ⟨hnone, Or.inr fun p hp hcovered => Bool.eq_false_iff.mpr fun hset => ?_⟩
      exact (hwords.1 p hp hcovered).mp hset (hin hnone hp hcovered)
    · rintro ⟨hnone, hharmless⟩
      refine Exact.of_none_missing hnone ⟨fun p hp hcovered => ?_, fun _ _ => rfl⟩
      rw [hharmless.resolve_left hupdate p hp hcovered]
      exact ⟨nofun, fun hout => absurd (hin hnone hp hcovered) hout⟩

/-- Without words nothing is walked over, or the first packet decides. -/
theorem exact_none_iff (hlarge : update.header.updateSize < 2 ^ 32) :
    Exact update.header written none count
        (getMissingPackets packages isErased s updateHandle none (some count)) ↔
      missing update.header written none count = ∅ ∧ Harmless update.header count none := by
  have hfinite := @finite_missing update.header written hsize none count
  obtain ⟨isErased', hreports, hrun⟩ := getMissingPackets_eq hopened none count
  rw [hrun]
  by_cases hidle : update.header.updateSize = 0 ∨ 2 ^ 31 - 31 ≤ update.header.updateSize
  · rw [scanFrom_none_idle isErased' hlarge hidle, Option.map_some]
    constructor
    · intro h
      exact ⟨h.none_missing rfl hfinite, hidle⟩
    · rintro ⟨hnone, -⟩
      exact Exact.of_none_missing hnone trivial
  · refine ⟨fun h => ?_, fun h => absurd h.2 hidle⟩
    exfalso
    obtain ⟨m, hm, hrest⟩ := h
    obtain ⟨scanned, hscan, rfl⟩ := Option.map_eq_some_iff.mp hm
    have hnone := Exact.none_missing ⟨_, rfl, hrest⟩ rfl hfinite
    have hpacket : IsPacket update.header 0 := by
      unfold IsPacket
      omega
    have hwritten : 0 ∈ written := by
      by_contra hout
      have hmem : 0 ∈ missing update.header written none count := ⟨hpacket, nofun, hout⟩
      rw [hnone] at hmem
      exact hmem
    have hupdate : update.header.updateSize < 2 ^ 31 := by omega
    have hat : AtPacket update.header 0 ⟨0, update.header.packetSize, 0, none⟩ := by
      intro _
      rw [Nat.zero_mul]
      exact ⟨rfl, rfl⟩
    obtain ⟨hlow, hhigh, -⟩ := clipped_spec hsize hsmall hupdate hat hpacket
    have herased : isErased' 0 (clipped update.header.updateSize
        ⟨0, update.header.packetSize, 0, none⟩) = false := by
      refine Bool.eq_false_iff.mpr fun h => ?_
      have hiff := erased_iff hreports hholds hpacket hsize hlow hhigh
      rw [Nat.zero_mul] at hiff
      exact hiff.mp h hwritten
    have hpos := wordCount_none_pos (h := update.header) (by omega) (by omega) count
    have hgoes : (⟨0, update.header.packetSize, 0, none⟩ : Scan).offset < update.header.updateSize := by
      change (0 : Int) < _
      omega
    obtain ⟨n, hn⟩ : ∃ n, 32 * (wordCount update.header none count).toNat = n + 1 :=
      ⟨_, (Nat.sub_add_cancel (by omega)).symm⟩
    rw [int32_size hupdate, int32_size hsmall, hn, scanFrom_go isErased' _ hgoes,
      scanPacket_null rfl herased] at hscan
    exact nomatch hscan

end Call

/-! ### Sending the packets -/

/-- The host sends packets, one after the other. -/
def sendPackets (packages : List (Package W)) (updateHandle : Int) (data validation : Nat → Data) :
    List Nat → System W → Option (System W)
  | [], s => some s
  | p :: ps, s => do
      let (s, _) ← addPacket packages s updateHandle p (data p) (validation p)
      sendPackets packages updateHandle data validation ps s

def reported (h : Header) (count : Int) (bits : Nat → BitVec 32) : List Nat :=
  (List.range (32 * count.toNat)).filter fun p => decide (IsPacket h p) && Bitmap.bit bits p

/-- The host has all packets, the package accepts them, and its storage keeps what is written. -/
structure Takes (unwritten : W → Int → Prop) (update : Update) (package : Package W)
    (data validation : Nat → Data) : Prop where
  length : ∀ p, IsPacket update.header p → (data p).length = packetLength update.header p
  accepted : ∀ p w, (validatePacketOf package update (data p) (validation p) w).1 = true ∧
    ∀ b, unwritten (validatePacketOf package update (data p) (validation p) w).2 b ↔ unwritten w b
  written : ∃ storage write, package.storage = some storage ∧ storage.write = some write ∧
    ∀ offset data w b, unwritten (write update.storageHandle offset data w).2 b ↔
      unwritten w b ∧ ¬ (offset ≤ b ∧ b < offset + data.length)

/-- When the packets that are reported have been sent, none is missing. -/
def Completes (packages : List (Package W)) (unwritten : W → Int → Prop) (updateHandle : Int)
    (h : Header) (data validation : Nat → Data) (words : Option (Nat → BitVec 32)) (count : Int)
    (s : System W) (r : Option Missing) : Prop :=
  ∀ m bits', r = some m → m.pPacketBits = some bits' →
    ∃ s' written', sendPackets packages updateHandle data validation (reported h count bits') s =
        some s' ∧ Holds h written' (unwritten s'.world) ∧ missing h written' words count = ∅

section Send

variable {data validation : Nat → Data} (htakes : Takes unwritten update package data validation)
include htakes

theorem addPacket_holds (hopened : Opened packages isErased unwritten updateHandle update package s)
    (hholds : Holds update.header written (unwritten s.world)) {p : Nat}
    (hp : IsPacket update.header p) :
    ∃ s' reply, addPacket packages s updateHandle p (data p) (validation p) = some (s', reply) ∧
      Opened packages isErased unwritten updateHandle update package s' ∧
      Holds update.header (insert p written) (unwritten s'.world) := by
  obtain ⟨⟨slot, hfound⟩, hauth, hprovider, hstorage, herased⟩ := hopened
  obtain ⟨hlength, haccepted, storage, write, hpackage, hwrite, hkeeps⟩ := htakes
  obtain ⟨hok, hsame⟩ := haccepted p s.world
  generalize hchecked : validatePacketOf package update (data p) (validation p) s.world = checked
    at hok hsame
  obtain ⟨ok, world⟩ := checked
  obtain rfl : ok = true := hok
  have hchecked' : ∀ b, unwritten world b ↔ unwritten s.world b := hsame
  let wrote := write update.storageHandle (p * update.header.packetSize) (data p) world
  refine ⟨({ s with world := wrote.2 }).mark (.wrote slot),
    .bool (decide (wrote.1 = (data p).length)), ?_,
    ⟨⟨slot, hfound⟩, hauth, hprovider, hstorage, herased⟩, ?_⟩
  · unfold addPacket
    simp only [hfound, hprovider, hpackage, hauth, hchecked, hwrite, Bool.not_true,
      Bool.false_eq_true, if_false]
    rfl
  · intro b
    change unwritten wrote.2 b ↔ _
    have hin : ((p : Int) * update.header.packetSize ≤ b ∧
        b < p * update.header.packetSize + (data p).length) ↔ InPacket update.header p b := by
      unfold InPacket
      rw [hlength p hp, Nat.cast_add, Nat.cast_mul]
    rw [hkeeps, hchecked', hholds b, hin]
    constructor
    · rintro ⟨hothers, hthis⟩ q hq hpacket
      rcases hq with rfl | hq
      · exact hthis
      · exact hothers q hq hpacket
    · intro h
      exact ⟨fun q hq => h q (Or.inr hq), h p (Or.inl rfl) hp⟩

theorem sendPackets_holds (ps : List Nat) (hps : ∀ p ∈ ps, IsPacket update.header p)
    (hopened : Opened packages isErased unwritten updateHandle update package s)
    (hholds : Holds update.header written (unwritten s.world)) :
    ∃ s', sendPackets packages updateHandle data validation ps s = some s' ∧
      Holds update.header (written ∪ {p | p ∈ ps}) (unwritten s'.world) := by
  induction ps generalizing s written with
  | nil =>
    refine ⟨s, rfl, ?_⟩
    have hsame : written ∪ {p | p ∈ ([] : List Nat)} = written := by simp
    rwa [hsame]
  | cons p ps ih =>
    obtain ⟨s', reply, hrun, hopened', hholds'⟩ :=
      addPacket_holds htakes hopened hholds (hps p List.mem_cons_self)
    obtain ⟨s'', hrest, hholds''⟩ :=
      ih (fun q hq => hps q (List.mem_cons_of_mem _ hq)) hopened' hholds'
    refine ⟨s'', ?_, ?_⟩
    · rw [sendPackets, hrun]
      exact hrest
    · have hsame : insert p written ∪ {q | q ∈ ps} = written ∪ {q | q ∈ p :: ps} := by
        ext q
        simp only [Set.mem_union, Set.mem_insert_iff, Set.mem_ofPred_eq, List.mem_cons]
        tauto
      rwa [← hsame]

theorem completes_of_wordsExact {count : Int} {r : Missing}
    (hopened : Opened packages isErased unwritten updateHandle update package s)
    (hholds : Holds update.header written (unwritten s.world))
    (hwords : WordsExact update.header written count words r.pPacketBits) :
    Completes packages unwritten updateHandle update.header data validation words count s
      (some r) := by
  rintro m bits' hm hbits'
  obtain rfl := Option.some.inj hm
  obtain ⟨s', hsent, hholds'⟩ := sendPackets_holds htakes (reported update.header count bits')
    (fun p hp => by
      obtain ⟨-, hp⟩ := List.mem_filter.mp hp
      exact of_decide_eq_true (Bool.and_eq_true _ _ ▸ hp).1) hopened hholds
  refine ⟨s', _, hsent, hholds', ?_⟩
  refine Set.eq_empty_of_forall_notMem ?_
  rintro p ⟨hp, hcovered, hout⟩
  rw [hbits'] at hwords
  cases words with
  | none => exact hwords
  | some bits =>
    have hp32 := hcovered rfl
    have hmissing : p ∉ written := fun h => hout (Or.inl h)
    have hset := (hwords.1 p hp hp32).mpr hmissing
    refine hout (Or.inr (List.mem_filter.mpr ⟨List.mem_range.mpr (by omega), ?_⟩))
    rw [decide_eq_true hp, hset]
    rfl

end Send

/-- The report is exact when nothing is missing and the walk does no harm, and only then; the words
alone are exact, and enough to complete the update, whenever its size is one. -/
theorem missingPackets_reported_iff {data validation : Nat → Data} {count : Int}
    (hopened : Opened packages isErased unwritten updateHandle update package s)
    (htakes : Takes unwritten update package data validation)
    (hholds : Holds update.header written (unwritten s.world))
    (hsize : 0 < update.header.packetSize) (hsmall : update.header.packetSize < 2 ^ 31)
    (hlarge : update.header.updateSize < 2 ^ 32) (words : Option (Nat → BitVec 32)) :
    (Exact update.header written words count
          (getMissingPackets packages isErased s updateHandle words (some count)) ∧
        Completes packages unwritten updateHandle update.header data validation words count s
          (getMissingPackets packages isErased s updateHandle words (some count)) ↔
      missing update.header written words count = ∅ ∧ Harmless update.header count words) ∧
    ∀ bits, words = some bits → update.header.updateSize < 2 ^ 31 →
      ∃ bits', getMissingPackets packages isErased s updateHandle words (some count) =
          some ⟨true, some 0, some bits'⟩ ∧
        WordsExact update.header written count words (some bits') ∧
        Completes packages unwritten updateHandle update.header data validation words count s
          (getMissingPackets packages isErased s updateHandle words (some count)) := by
  constructor
  · have hexact : Exact update.header written words count
          (getMissingPackets packages isErased s updateHandle words (some count)) ↔
        missing update.header written words count = ∅ ∧ Harmless update.header count words := by
      cases words with
      | none => exact exact_none_iff hopened hholds hsize hsmall hlarge
      | some bits => exact exact_some_iff hopened hholds hsize hsmall hlarge bits
    rw [← hexact]
    refine ⟨fun h => h.1, fun h => ⟨h, ?_⟩⟩
    obtain ⟨m, hm, -, -, hwords⟩ := h
    rw [hm]
    exact completes_of_wordsExact htakes hopened hholds hwords
  · rintro bits rfl hupdate
    obtain ⟨bits', hrun, hwords⟩ :=
      @wordsExact_of_small _ _ _ _ _ _ _ _ _ count hopened hholds hsize hsmall hupdate bits
    refine ⟨bits', hrun, hwords, ?_⟩
    rw [hrun]
    exact completes_of_wordsExact htakes hopened hholds hwords

/-! ### An update of two packets -/

/-- A storage that keeps the places of the bytes that have been written -/
def byteStorage : StorageProvider (List Int) where
  create := none
  openUpdate := none
  close := none
  delete := none
  write := some fun _ offset data w =>
    (data.length, (List.range data.length).map (fun i : Nat => offset + (i : Int)) ++ w)
  getHeader := none

def byteErased : IsErased (List Int) := fun _ offset len w =>
  w.all fun b => !decide (offset ≤ b ∧ b < offset + len)

def bytePackage : Package (List Int) := ⟨none, none, none, some byteStorage⟩

def twoPackets : Update :=
  ⟨⟨1, ⟨1, 0, 0, 0⟩, 1, 0, 8, 4⟩, 0, ⟨true, false, true, false⟩, some 0⟩

def twoPacketsSystem (w : List Int) : System (List Int) := ⟨fun _ => twoPackets, true, w, []⟩

theorem twoPackets_opened (w : List Int) :
    Opened [bytePackage] (fun _ => some byteErased) (fun w b => b ∉ w) 0 twoPackets bytePackage
      (twoPacketsSystem w) := by
  refine ⟨⟨0, rfl⟩, rfl, rfl, rfl, byteErased, rfl, fun w offset len => ?_⟩
  change (w.all _ = true) ↔ _
  rw [List.all_eq_true]
  simp only [Bool.not_eq_true', decide_eq_false_iff_not]
  exact ⟨fun h b hlow hhigh hb => h b hb ⟨hlow, hhigh⟩, fun h b hb hin => h b hin.1 hin.2 hb⟩

theorem twoPackets_takes :
    Takes (fun w b => b ∉ w) twoPackets bytePackage (fun _ => List.replicate 4 0) (fun _ => []) := by
  refine ⟨fun p hp => ?_, fun p w => ⟨rfl, fun b => Iff.rfl⟩, byteStorage, _, rfl, rfl, ?_⟩
  · have hp8 : p * 4 < 8 := hp
    change 4 = min 4 (8 - p * 4)
    omega
  · intro offset data w b
    simp only [List.mem_append, List.mem_map, List.mem_range, not_or, not_exists, not_and]
    constructor
    · rintro ⟨hout, hw⟩
      refine ⟨hw, fun hlow hhigh => hout (b - offset).toNat (by omega) (by omega)⟩
    · rintro ⟨hw, hout⟩
      exact ⟨fun i hi heq => hout (by omega) (by omega), hw⟩

theorem twoPackets_holds_none : Holds twoPackets.header ∅ (fun b => b ∉ ([] : List Int)) :=
  fun _ => ⟨fun _ _ hp => absurd hp (Set.notMem_empty _), fun _ => List.not_mem_nil⟩

theorem missingPackets_reported_two : ∃ bits',
    getMissingPackets [bytePackage] (fun _ => some byteErased) (twoPacketsSystem []) 0
        (some fun _ => 0) (some 1) = some ⟨true, some 0, some bits'⟩ ∧
      WordsExact twoPackets.header ∅ 1 (some fun _ => 0) (some bits') := by
  obtain ⟨bits', hrun, hwords, -⟩ := (missingPackets_reported_iff (twoPackets_opened [])
    twoPackets_takes twoPackets_holds_none (by decide) (by decide) (by decide)
    (some fun _ => 0)).2 _ rfl (by decide)
  exact ⟨bits', hrun, hwords⟩

/-- Both packets are missing and none is counted; without words, packets that have been written are
fatal. -/
theorem twoPackets_not_counted :
    ¬ Exact twoPackets.header ∅ (some fun _ => 0) 1
      (getMissingPackets [bytePackage] (fun _ => some byteErased) (twoPacketsSystem []) 0
        (some fun _ => 0) (some 1)) ∧
    (getMissingPackets [bytePackage] (fun _ => some byteErased)
      (twoPacketsSystem [0, 1, 2, 3, 4, 5, 6, 7]) 0 none (some 0)).isNone = true := by
  constructor
  · intro h
    have hnone := ((exact_some_iff (twoPackets_opened []) twoPackets_holds_none (by decide)
      (by decide) (by decide) _).mp h).1
    have hmem : 0 ∈ missing twoPackets.header ∅ (some fun _ => 0) 1 :=
      ⟨by decide, fun _ => by decide, Set.notMem_empty 0⟩
    rw [hnone] at hmem
    exact hmem
  · rfl

end TinyClr.MFUpdate
