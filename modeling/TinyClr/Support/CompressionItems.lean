import TinyClr.Support.Compression
import TinyClr.Library.SlidingWindow
import Mathlib.Data.Nat.Bitwise

/-!
# Items

What the compressor puts into its output is a sequence of items in groups of eight, literal bytes
and codes.  A sequence of items covers the input if each code stands for bytes that occur at its
offset in the window before it; what the decoder makes of such a sequence is the input.

The sequence both sides work on is the input after a window of blanks.
-/

namespace TinyClr.Compression

open TinyClr.Library

/-! ### Codes -/

variable {x y : Nat}

theorem uint32_sub (hy : y ≤ x) (hx : x < 2 ^ 32) : uint32 ((x : Int) - y) = x - y := by
  rw [uint32_eq_toNat (by omega) (by omega)]
  omega

theorem and_0x0F00 (z : Nat) : z &&& 0x0F00 = z / 256 % 16 * 256 := by
  have hmask : (0x0F00 : Nat) = 0x0F <<< 8 := rfl
  have hz : z &&& (0x0F <<< 8) = ((z >>> 8) &&& 0x0F) <<< 8 := by
    refine Nat.eq_of_testBit_eq fun i => ?_
    simp only [Nat.testBit_and, Nat.testBit_shiftLeft, Nat.testBit_shiftRight]
    by_cases hi : 8 ≤ i
    · simp [hi]
    · simp [hi]
  rw [hmask, hz, and_mask 4 (m := 0x0F) rfl, Nat.shiftRight_eq_div_pow, Nat.shiftLeft_eq]
  rfl

theorem and_0xF0 (z : Nat) : (z &&& 0xF0) >>> 4 = z / 16 % 16 := by
  rw [Nat.shiftRight_and_distrib, show (0xF0 : Nat) >>> 4 = 0x0F from rfl, and_mask 4 (m := 0x0F) rfl,
    Nat.shiftRight_eq_div_pow]
  rfl

theorem FAKE2REAL_POS_eq (x : Nat) : FAKE2REAL_POS x = x % WINSIZE := and_mask 12 rfl x

/-- The number behind an offset, counted from `0x10` -/
def fromOffset (y : Nat) : Nat := uint32 ((y : Int) - 0x10)

theorem fromOffset_mod (hy : y < WINSIZE) : (fromOffset y + 16) % WINSIZE = y := by
  unfold fromOffset uint32 WINSIZE at *
  omega

theorem COMP_CODE_eq (hmin : 3 ≤ x) (hmax : x ≤ MAXLEN) (y : Nat) : COMP_CODE x y =
    (x - 3) * 256 + fromOffset y / 256 % 16 * 4096 + fromOffset y % 256 := by
  have hmax' : x ≤ 18 := hmax
  rw [COMP_CODE, show ((3 : Int)) = ((3 : Nat) : Int) from rfl,
    uint32_sub hmin (Nat.lt_of_le_of_lt hmax' (by decide)), and_0x0F00,
    and_mask 4 (m := 0x0F) rfl, and_mask 8 (m := 0xFF) rfl, Nat.shiftLeft_eq, Nat.shiftLeft_eq]
  change (x - 3) % 16 * 256 + fromOffset y / 256 % 16 * 256 * 16 + fromOffset y % 256 = _
  omega

theorem toNat_COMP_CODE_LOBYTE (hmin : 3 ≤ x) (hmax : x ≤ MAXLEN) (y : Nat) :
    (COMP_CODE_LOBYTE (COMP_CODE x y)).toNat = fromOffset y % 256 := by
  rw [COMP_CODE_LOBYTE, UInt8.toNat_ofNat', COMP_CODE_eq hmin hmax]
  omega

theorem toNat_COMP_CODE_HIBYTE (hmin : 3 ≤ x) (hmax : x ≤ MAXLEN) (y : Nat) :
    (COMP_CODE_HIBYTE (COMP_CODE x y)).toNat = x - 3 + fromOffset y / 256 % 16 * 16 := by
  have hmax' : x ≤ 18 := hmax
  have hcode : COMP_CODE x y < 2 ^ 16 := by
    rw [COMP_CODE_eq hmin hmax]
    omega
  rw [COMP_CODE_HIBYTE, UInt8.toNat_ofNat', uint16_eq_toNat (by omega) (by omega), Int.toNat_natCast,
    and_mask 8 (m := 0xFF) rfl, Nat.shiftRight_eq_div_pow, COMP_CODE_eq hmin hmax]
  omega

theorem LENGTH_COMP_CODE (hmin : 3 ≤ x) (hmax : x ≤ MAXLEN) (y : Nat) :
    LENGTH (COMP_CODE_HIBYTE (COMP_CODE x y)) = x := by
  have hmax' : x ≤ 18 := hmax
  rw [LENGTH, toNat_COMP_CODE_HIBYTE hmin hmax, and_mask 4 (m := 0x0F) rfl]
  omega

theorem OFFSET_COMP_CODE (hmin : 3 ≤ x) (hmax : x ≤ MAXLEN) (hy : y < WINSIZE) :
    OFFSET (COMP_CODE_LOBYTE (COMP_CODE x y)) (COMP_CODE_HIBYTE (COMP_CODE x y)) % WINSIZE = y := by
  have hmax' : x ≤ 18 := hmax
  have hmod := fromOffset_mod hy
  rw [OFFSET, and_0xF0, toNat_COMP_CODE_LOBYTE hmin hmax, toNat_COMP_CODE_HIBYTE hmin hmax,
    and_mask 12 (m := 0x0FFF) rfl]
  unfold WINSIZE at hmod ⊢
  omega

theorem BITSET_iff (byte : UInt8) (bit : Nat) : BITSET byte bit = byte.toNat.testBit bit := by
  rw [BITSET, Nat.one_shiftLeft, Nat.and_two_pow]
  cases byte.toNat.testBit bit
  · simp
  · exact decide_eq_true (Nat.mul_pos Nat.one_pos (Nat.two_pow_pos bit))

/-! ### Sequences of items -/

inductive Item where
  | literal (byte : UInt8)
  | code (count offset : Nat)
deriving DecidableEq, Repr

def Item.bytes : Item → List UInt8
  | .literal byte => [byte]
  | .code count offset =>
      [COMP_CODE_LOBYTE (COMP_CODE count offset), COMP_CODE_HIBYTE (COMP_CODE count offset)]

def Item.isLiteral : Item → Bool
  | .literal _ => true
  | .code _ _ => false

/-- The sequence of which the window holds the last bytes: blanks and the input -/
def history (infile : List UInt8) (p : Nat) : UInt8 :=
  (List.replicate WINSIZE 0x20 ++ infile).getD p 0

/-- A code of this length and offset stands for the bytes at `P`. -/
structure ValidCode (f : Nat → UInt8) (P count offset : Nat) : Prop where
  min : 3 ≤ count
  max : count ≤ MAXLEN
  same : ∃ d, 1 ≤ d ∧ d ≤ WINSIZE ∧ offset = (P - d) % WINSIZE ∧
    ∀ k < count, f (P - d + k) = f (P + k)

/-- The items stand for the bytes from `P` up to `stop`. -/
def Covers (f : Nat → UInt8) (stop : Nat) : Nat → List Item → Prop
  | P, [] => P = stop
  | P, .literal byte :: items => P < stop ∧ byte = f P ∧ Covers f stop (P + 1) items
  | P, .code count offset :: items => P + count ≤ stop ∧ ValidCode f P count offset ∧
      Covers f stop (P + count) items

theorem Covers.append {f : Nat → UInt8} {middle stop : Nat} {items' : List Item}
    (hle : middle ≤ stop) : ∀ {P : Nat} {items : List Item},
    Covers f middle P items → Covers f stop middle items' → Covers f stop P (items ++ items')
  | P, [], h, h' => (show P = middle from h) ▸ h'
  | _, .literal _ :: _, ⟨hlt, hbyte, h⟩, h' =>
      ⟨Nat.lt_of_lt_of_le hlt hle, hbyte, append hle h h'⟩
  | _, .code _ _ :: _, ⟨hlt, hcode, h⟩, h' => ⟨Nat.le_trans hlt hle, hcode, append hle h h'⟩

/-- A flag byte tells the literals of its group. -/
def FlagsOf (flag : UInt8) (items : List Item) : Prop :=
  ∀ i item, items[i]? = some item → BITSET flag i = item.isLiteral

def groupBytes (flag : UInt8) (items : List Item) : List UInt8 :=
  flag :: items.flatMap Item.bytes

/-! ### Decompression -/

section Decoder

variable {f : Nat → UInt8} {outSize stop P : Nat} {d : Decoder}

structure Decoder.Synced (f : Nat → UInt8) (P : Nat) (d : Decoder) : Prop where
  pos : d.currPos + WINSIZE = P
  window : Window WINSIZE f d.window (P - 1)
  written : d.outBuf = (List.range' WINSIZE d.currPos).map f

theorem Decoder.Synced.length (h : d.Synced f P) : d.outBuf.length + WINSIZE = P := by
  rw [h.written, List.length_map, List.length_range', h.pos]

theorem Decoder.write_spec (h : d.Synced f P) (hsize : outSize + WINSIZE = stop)
    (hstop : P < stop) : ∃ d', d.write outSize (f P) = some d' ∧ d'.inBuf = d.inBuf ∧
      d'.Synced f (P + 1) := by
  have hlen := h.length
  have hpos := h.pos
  have hcell : FAKE2REAL_POS d.currPos = P % WINSIZE := by
    rw [FAKE2REAL_POS_eq, ← hpos, Nat.add_mod_right]
  have hP : P - 1 + 1 = P := Nat.sub_add_cancel (by unfold WINSIZE at hpos; omega)
  rw [Decoder.write, if_pos (by omega)]
  refine ⟨_, rfl, rfl, by simp only; omega, ?_, ?_⟩
  · have hnext := h.window.advance
    rw [hP] at hnext
    rw [hcell]
    exact hnext
  · simp only
    rw [h.written, List.range'_concat, List.map_append, List.map_singleton, Nat.one_mul,
      Nat.add_comm WINSIZE, hpos]

theorem Decoder.copy_spec (hsize : outSize + WINSIZE = stop) {dist : Nat} (hmin : 1 ≤ dist)
    (hmax : dist ≤ WINSIZE) :
    ∀ (length : Nat) (P offset : Nat) (d : Decoder), d.Synced f P → P + length ≤ stop →
      offset % WINSIZE = (P - dist) % WINSIZE →
      (∀ k < length, f (P - dist + k) = f (P + k)) →
      ∃ d', d.copy outSize length offset = some d' ∧ d'.inBuf = d.inBuf ∧
        d'.Synced f (P + length) := by
  intro length
  induction length with
  | zero => exact fun P offset d h _ _ _ => ⟨d, rfl, rfl, h⟩
  | succ length ih =>
    intro P offset d h hstop hoffset hsame
    have hpos := h.pos
    have hbyte : d.window (FAKE2REAL_POS offset) = f P := by
      rw [FAKE2REAL_POS_eq, hoffset, h.window (P - dist) (by omega) (by omega)]
      exact hsame 0 (Nat.succ_pos length)
    obtain ⟨d₁, hwrite, hin, h₁⟩ := Decoder.write_spec h hsize (show P < stop by omega)
    have hnext : P - dist + 1 = P + 1 - dist := by omega
    obtain ⟨d₂, hcopy, hin₂, h₂⟩ := ih (P + 1) (offset + 1) d₁ h₁ (by omega)
      (by rw [← hnext, Nat.add_mod, hoffset, ← Nat.add_mod])
      (fun k hk => by
        have hk' := hsame (k + 1) (by omega)
        rwa [← hnext, Nat.add_assoc _ 1 k, Nat.add_comm 1 k, Nat.add_assoc P 1 k, Nat.add_comm 1 k])
    refine ⟨d₂, ?_, hin₂.trans hin, ?_⟩
    · rw [Decoder.copy, hbyte, hwrite]
      exact hcopy
    · rwa [Nat.add_assoc P 1, Nat.add_comm 1 length] at h₂

/-- One item -/
theorem Decoder.item_spec {item : Item} {items : List Item} {rest : List UInt8} {bitMap : UInt8}
    {counter : Nat} (h : d.Synced f P) (hsize : outSize + WINSIZE = stop) (hcovers : Covers f stop P (item :: items))
    (hin : d.inBuf = item.bytes ++ rest) (hflag : BITSET bitMap counter = item.isLiteral) :
    ∃ d' P', d.item outSize bitMap counter = some d' ∧ d'.inBuf = rest ∧
      d'.Synced f P' ∧ Covers f stop P' items := by
  have hsynced : ∀ {inBuf}, Decoder.Synced f P { d with inBuf } := ⟨h.pos, h.window, h.written⟩
  rw [Decoder.item, hflag]
  cases item with
  | literal byte =>
    obtain ⟨hstop, rfl, hitems⟩ := hcovers
    obtain ⟨d', hwrite, hin', h'⟩ := Decoder.write_spec (d := { d with inBuf := rest }) hsynced hsize
      hstop
    refine ⟨d', P + 1, ?_, hin', h', hitems⟩
    simp only [Item.isLiteral, if_true, Decoder.read, hin, Item.bytes, List.singleton_append,
      Option.bind_eq_bind, Option.bind_some]
    exact hwrite
  | code count offset =>
    obtain ⟨hstop, ⟨hmin, hmax, dist, hdmin, hdmax, hoffset, hsame⟩, hitems⟩ := hcovers
    have hlt : offset < WINSIZE := by
      rw [hoffset]
      exact Nat.mod_lt _ (Nat.lt_of_lt_of_le hdmin hdmax)
    obtain ⟨d', hcopy, hin', h'⟩ := Decoder.copy_spec hsize hdmin hdmax count P
      (OFFSET (COMP_CODE_LOBYTE (COMP_CODE count offset))
        (COMP_CODE_HIBYTE (COMP_CODE count offset)))
      { d with inBuf := rest } hsynced hstop
      (by rw [OFFSET_COMP_CODE hmin hmax hlt, hoffset]) hsame
    refine ⟨d', P + count, ?_, hin', h', hitems⟩
    simp only [Item.isLiteral, Bool.false_eq_true, if_false, Decoder.read, hin, Item.bytes,
      List.cons_append, List.nil_append, Option.bind_eq_bind, Option.bind_some]
    rw [LENGTH_COMP_CODE hmin hmax]
    exact hcopy

theorem covers_lt {item : Item} {items : List Item} (h : Covers f stop P (item :: items)) :
    P < stop := by
  cases item with
  | literal byte => exact h.1
  | code count offset =>
    have hmin := h.2.1.min
    have hstop := h.1
    omega

/-- The items of a group that are left, which all belong to it if others follow -/
theorem Decoder.items_spec (hsize : outSize + WINSIZE = stop) {items : List Item}
    {rest : List UInt8} {bitMap : UInt8} : ∀ (rounds P : Nat) (group : List Item) (d : Decoder),
    d.Synced f P → rounds ≤ 8 → group.length ≤ rounds → group.length = rounds ∨ items = [] →
    (∀ i item, group[i]? = some item → BITSET bitMap (8 - rounds + i) = item.isLiteral) →
    Covers f stop P (group ++ items) → d.inBuf = group.flatMap Item.bytes ++ rest →
    ∃ d' P', d.items outSize bitMap rounds = some d' ∧ d'.inBuf = rest ∧ d'.Synced f P' ∧
      Covers f stop P' items := by
  intro rounds
  induction rounds with
  | zero =>
    intro P group d h _ hlen _ _ hcovers hin
    obtain rfl := List.length_eq_zero_iff.mp (Nat.le_zero.mp hlen)
    exact ⟨d, P, rfl, hin, h, hcovers⟩
  | succ rounds ih =>
    intro P group d h hrounds hlen hfull hflags hcovers hin
    have hwritten := h.length
    rw [Decoder.items]
    cases group with
    | nil =>
      obtain rfl := hfull.resolve_left (Nat.succ_ne_zero rounds).symm
      have hstop : P = stop := hcovers
      rw [if_neg (by omega)]
      exact ⟨d, P, rfl, hin, h, hcovers⟩
    | cons item group =>
      have hlt := covers_lt hcovers
      have hcounter : 8 - (rounds + 1) + 0 = 7 - rounds := by omega
      have hflag := hflags 0 item rfl
      rw [hcounter] at hflag
      rw [List.flatMap_cons, List.append_assoc] at hin
      obtain ⟨d₁, P₁, hitem, hin₁, h₁, hcovers₁⟩ := Decoder.item_spec h hsize hcovers hin hflag
      rw [List.length_cons] at hlen hfull
      obtain ⟨d₂, P₂, hitems, hin₂, h₂, hcovers₂⟩ := ih P₁ group d₁ h₁ (by omega) (by omega)
        (hfull.imp_left fun heq => by omega)
        (fun i item' hi => by
          have hnext := hflags (i + 1) item' hi
          rwa [show 8 - (rounds + 1) + (i + 1) = 8 - rounds + i by omega] at hnext)
        hcovers₁ hin₁
      refine ⟨d₂, P₂, ?_, hin₂, h₂, hcovers₂⟩
      rw [if_pos (by omega), hitem]
      exact hitems

/-- Groups of eight items, and a last one that may be shorter -/
def Grouped : List (UInt8 × List Item) → Prop
  | [] => True
  | (flag, items) :: groups => FlagsOf flag items ∧ items.length ≤ 8 ∧
      (items.length = 8 ∨ groups = []) ∧ Grouped groups

def outputOf (groups : List (UInt8 × List Item)) : List UInt8 :=
  groups.flatMap fun group => groupBytes group.1 group.2

def itemsOf (groups : List (UInt8 × List Item)) : List Item :=
  groups.flatMap fun group => group.2

theorem Decoder.loop_spec (hsize : outSize + WINSIZE = stop) :
    ∀ (groups : List (UInt8 × List Item)) (rounds P : Nat) (d : Decoder), Grouped groups →
    groups.length ≤ rounds → d.Synced f P → Covers f stop P (itemsOf groups) →
    d.inBuf = outputOf groups → ∃ d', d.loop outSize rounds = some d' ∧ d'.Synced f stop := by
  intro groups
  induction groups with
  | nil =>
    intro rounds P d _ _ h hcovers hin
    obtain rfl : P = stop := hcovers
    refine ⟨d, ?_, h⟩
    have hempty : d.inBuf = [] := hin
    cases rounds with
    | zero => rfl
    | succ rounds => rw [Decoder.loop, hempty]
  | cons group groups ih =>
    obtain ⟨flag, items⟩ := group
    rintro rounds P d ⟨hflags, hlen, hfull, hgroups⟩ hrounds h hcovers hin
    obtain ⟨rounds, rfl⟩ := Nat.exists_eq_succ_of_ne_zero
      (Nat.ne_of_gt (Nat.lt_of_lt_of_le (Nat.succ_pos _) hrounds))
    have hrest : itemsOf groups = [] ∨ items.length = 8 := by
      rcases hfull with hfull | rfl
      · exact Or.inr hfull
      · exact Or.inl rfl
    obtain ⟨d₁, P₁, hitems, hin₁, h₁, hcovers₁⟩ := Decoder.items_spec
      hsize 8 P items { d with inBuf := items.flatMap Item.bytes ++ outputOf groups }
      ⟨h.pos, h.window, h.written⟩ (Nat.le_refl 8) hlen hrest.symm
      (fun i item hi => by rw [Nat.sub_self, Nat.zero_add]; exact hflags i item hi) hcovers rfl
    obtain ⟨d₂, hloop, h₂⟩ := ih rounds P₁ d₁ hgroups (Nat.le_of_succ_le_succ hrounds) h₁ hcovers₁
      hin₁
    refine ⟨d₂, ?_, h₂⟩
    have hcons : d.inBuf = flag :: (items.flatMap Item.bytes ++ outputOf groups) := hin
    rw [Decoder.loop, hcons]
    simp only [hitems, Option.bind_eq_bind, Option.bind_some]
    exact hloop

end Decoder

variable {infile : List UInt8}

theorem history_blank {p : Nat} (hp : p < WINSIZE) :
    history infile p = 0x20 := by
  rw [history, List.getD_append _ _ _ _ (by simpa using hp),
    List.getD_eq_getElem _ _ (by simpa using hp), List.getElem_replicate]

theorem history_getElem {i : Nat} (hi : i < infile.length) :
    history infile (i + WINSIZE) = infile[i] := by
  rw [history, List.getD_append_right _ _ _ _ (by simp), List.length_replicate,
    Nat.add_sub_cancel, List.getD_eq_getElem _ _ hi]

theorem history_input :
    (List.range' WINSIZE infile.length).map (history infile) = infile := by
  refine List.ext_getElem (by simp) fun i hi hi' => ?_
  rw [List.getElem_map, List.getElem_range', Nat.one_mul, Nat.add_comm, history_getElem hi']

theorem length_le_outputOf (groups : List (UInt8 × List Item)) :
    groups.length ≤ (outputOf groups).length := by
  induction groups with
  | nil => exact Nat.le_refl 0
  | cons group groups ih =>
    rw [outputOf, List.flatMap_cons, List.length_append, groupBytes, List.length_cons,
      List.length_cons]
    have hrest : groups.length ≤ (groups.flatMap fun group =>
      groupBytes group.1 group.2).length := ih
    omega

/-- Decompression of items that cover the input gives the input. -/
theorem decompress_spec {groups : List (UInt8 × List Item)}
    (hgroups : Grouped groups)
    (hcovers : Covers (history infile) (infile.length + WINSIZE) WINSIZE (itemsOf groups)) :
    LZ77_Decompress (outputOf groups) infile.length = some infile := by
  obtain ⟨d, hloop, h⟩ := Decoder.loop_spec rfl groups (outputOf groups).length WINSIZE
    { inBuf := outputOf groups, outBuf := [], window := fun _ => 0x20, currPos := 0 } hgroups
    (length_le_outputOf groups)
    ⟨Nat.zero_add _, fun p hp _ => (history_blank (by unfold WINSIZE at hp ⊢; omega)).symm, rfl⟩
    hcovers rfl
  rw [LZ77_Decompress, hloop, Option.map_some, h.written]
  have hpos := h.pos
  rw [Nat.add_right_cancel hpos, history_input]

/-! ### The output of the compressor -/

structure Writer.Holds (w : Writer) (groups : List (UInt8 × List Item)) (items : List Item) :
    Prop where
  full : ∀ group ∈ groups, FlagsOf group.1 group.2 ∧ group.2.length = 8
  written : w.outfile = outputOf groups
  count : w.flagCount = items.length
  few : items.length < 8
  data : w.dataBytes = items.flatMap Item.bytes
  flags : FlagsOf w.flagByte items
  clean : ∀ i, items.length ≤ i → BITSET w.flagByte i = false

section Writer

variable {w : Writer} {groups : List (UInt8 × List Item)} {items : List Item}

theorem BITSET_or {k : Nat} (hk : k < 8) (flag : UInt8) (i : Nat) :
    BITSET (flag ||| UInt8.ofNat (1 <<< k)) i = (BITSET flag i || decide (k = i)) := by
  have hlt : 2 ^ k < 2 ^ 8 := Nat.pow_lt_pow_right (by decide) hk
  rw [BITSET_iff, BITSET_iff, UInt8.toNat_or, UInt8.toNat_ofNat', Nat.one_shiftLeft,
    Nat.mod_eq_of_lt hlt, Nat.testBit_or, Nat.testBit_two_pow]

theorem flagsOf_append {flag flag' : UInt8} {item : Item} (h : FlagsOf flag items)
    (hkeep : ∀ i < items.length, BITSET flag' i = BITSET flag i)
    (hlast : BITSET flag' items.length = item.isLiteral) : FlagsOf flag' (items ++ [item]) := by
  intro i item' hi
  rcases Nat.lt_or_ge i items.length with hlt | hge
  · rw [List.getElem?_append_left hlt] at hi
    rw [hkeep i hlt]
    exact h i item' hi
  · have hlen := (List.getElem?_eq_some_iff.mp hi).1
    rw [List.length_append, List.length_singleton] at hlen
    have heq : i = items.length := by omega
    rw [heq, List.getElem?_concat_length] at hi
    rw [heq, hlast, Option.some.inj hi]

/-- An item is complete: its bytes are in the buffer and its flag is set. -/
theorem Writer.checkFlagByte_spec (hfull : ∀ group ∈ groups, FlagsOf group.1 group.2 ∧
    group.2.length = 8) (hwritten : w.outfile = outputOf groups) (hcount : w.flagCount + 1 =
    items.length) (hfew : items.length ≤ 8) (hdata : w.dataBytes = items.flatMap Item.bytes)
    (hflags : FlagsOf w.flagByte items)
    (hclean : ∀ i, items.length ≤ i → BITSET w.flagByte i = false) :
    ∃ groups' items', w.checkFlagByte.Holds groups' items' ∧
      itemsOf groups' ++ items' = itemsOf groups ++ items := by
  rw [Writer.checkFlagByte]
  by_cases height : w.flagCount + 1 = 8
  · rw [if_pos height, Writer.writeFlagByte, if_pos (Nat.succ_pos _)]
    refine ⟨groups ++ [(w.flagByte, items)], [], ⟨?_, ?_, rfl, by decide, rfl, ?_, ?_⟩, ?_⟩
    · intro group hgroup
      rcases List.mem_append.mp hgroup with hgroup | hgroup
      · exact hfull group hgroup
      · rw [List.mem_singleton.mp hgroup]
        exact ⟨hflags, hcount.symm.trans height⟩
    · simp [outputOf, groupBytes, hwritten, hdata]
    · exact fun i item hi => by simp at hi
    · exact fun i _ => by simp [BITSET]
    · simp [itemsOf]
  · rw [if_neg height]
    refine ⟨groups, items, ⟨hfull, hwritten, hcount, ?_, hdata, hflags, hclean⟩, rfl⟩
    have hne : items.length ≠ 8 := fun heq => height (hcount.trans heq)
    omega

theorem Writer.saveCode_spec (h : w.Holds groups items) (count offset : Nat) :
    ∃ groups' items', (w.saveCode count offset).Holds groups' items' ∧
      itemsOf groups' ++ items' = itemsOf groups ++ items ++ [.code count offset] := by
  rw [Writer.saveCode, List.append_assoc]
  have hlen : (items ++ [Item.code count offset]).length = items.length + 1 := by simp
  exact Writer.checkFlagByte_spec h.full h.written (by rw [hlen, h.count])
    (by rw [hlen]; exact h.few) (by simp [h.data, Item.bytes])
    (flagsOf_append h.flags (fun _ _ => rfl) (h.clean _ (Nat.le_refl _)))
    (fun i hi => h.clean i (by omega))

theorem Writer.saveUncompByte_spec (h : w.Holds groups items) (ch : UInt8) :
    ∃ groups' items', (w.saveUncompByte ch).Holds groups' items' ∧
      itemsOf groups' ++ items' = itemsOf groups ++ items ++ [.literal ch] := by
  rw [Writer.saveUncompByte, List.append_assoc]
  have hlen : (items ++ [Item.literal ch]).length = items.length + 1 := by simp
  have hcount : w.flagCount < 8 := by
    rw [h.count]
    exact h.few
  have hor : ∀ i, BITSET (w.flagByte ||| UInt8.ofNat (1 <<< w.flagCount)) i =
      (BITSET w.flagByte i || decide (items.length = i)) := by
    intro i
    rw [BITSET_or hcount, h.count]
  refine Writer.checkFlagByte_spec h.full h.written (by rw [hlen, h.count])
    (by rw [hlen]; exact h.few) (by simp [h.data, Item.bytes])
    (flagsOf_append h.flags (fun i hi => ?_) ?_) fun i hi => ?_
  · rw [hor, decide_eq_false (Nat.ne_of_gt hi), Bool.or_false]
  · rw [hor, decide_eq_true rfl, Bool.or_true]
    rfl
  · rw [hor, h.clean i (by omega), decide_eq_false (by omega), Bool.or_false]

/-- What is in the output at the end -/
theorem Writer.writeFlagByte_spec (h : w.Holds groups items) :
    ∃ groups', Grouped groups' ∧ w.writeFlagByte.outfile = outputOf groups' ∧
      itemsOf groups' = itemsOf groups ++ items := by
  have hgrouped : ∀ (groups last : List (UInt8 × List Item)),
      (∀ group ∈ groups, FlagsOf group.1 group.2 ∧ group.2.length = 8) → Grouped last →
      Grouped (groups ++ last) := by
    intro groups last hfull hlast
    induction groups with
    | nil => exact hlast
    | cons group groups ih =>
      obtain ⟨hflags, hlen⟩ := hfull group List.mem_cons_self
      exact ⟨hflags, Nat.le_of_eq hlen, Or.inl hlen,
        ih fun group' hgroup' => hfull group' (List.mem_cons_of_mem _ hgroup')⟩
  rw [Writer.writeFlagByte]
  by_cases hcount : w.flagCount > 0
  · rw [if_pos hcount]
    refine ⟨groups ++ [(w.flagByte, items)], hgrouped _ _ h.full
      ⟨h.flags, Nat.le_of_lt h.few, Or.inr rfl, trivial⟩, ?_, ?_⟩
    · simp [outputOf, groupBytes, h.written, h.data]
    · simp [itemsOf]
  · rw [if_neg hcount]
    have hempty : items = [] := by
      rw [← List.length_eq_zero_iff, ← h.count]
      exact Nat.eq_zero_of_not_pos hcount
    refine ⟨groups, ?_, h.written, by rw [hempty, List.append_nil]⟩
    have hall := hgrouped groups [] h.full trivial
    rwa [List.append_nil] at hall

/-- What the writer has put into the output and its buffer stands for the bytes up to `P`. -/
def Writer.Covering (f : Nat → UInt8) (P : Nat) (w : Writer) : Prop :=
  ∃ groups items, w.Holds groups items ∧ Covers f P WINSIZE (itemsOf groups ++ items)

theorem Writer.Covering.literal {f : Nat → UInt8} {P : Nat} (h : w.Covering f P) :
    (w.saveUncompByte (f P)).Covering f (P + 1) := by
  obtain ⟨groups, items, hw, hcovers⟩ := h
  obtain ⟨groups', items', hw', heq⟩ := w.saveUncompByte_spec hw (f P)
  refine ⟨groups', items', hw', ?_⟩
  rw [heq]
  exact hcovers.append (Nat.le_succ P) ⟨Nat.lt_succ_self P, rfl, rfl⟩

theorem Writer.Covering.code {f : Nat → UInt8} {P count offset : Nat} (h : w.Covering f P)
    (hcode : ValidCode f P count offset) :
    (w.saveCode count offset).Covering f (P + count) := by
  obtain ⟨groups, items, hw, hcovers⟩ := h
  obtain ⟨groups', items', hw', heq⟩ := w.saveCode_spec hw count offset
  refine ⟨groups', items', hw', ?_⟩
  rw [heq]
  exact hcovers.append (Nat.le_add_right P count) ⟨Nat.le_refl _, hcode, rfl⟩

end Writer

end TinyClr.Compression
