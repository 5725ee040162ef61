import TinyClr.Core.UnicodeHelper
import TinyClr.Library.Utf
import Mathlib.Tactic.Common
import Mathlib.Tactic.IntervalCases

/-!
# What the converter does on valid text

For every sequence of scalar values this module follows the four loops of
`CLR_RT_UnicodeHelper` over its UTF-8 and UTF-16 forms: the counters count exactly, the encoder
writes standard UTF-8, and the decoder writes `fromUnits` of every character, which is its UTF-16
form below `0x10000` and nothing valid above.
-/

namespace TinyClr.UnicodeHelper

open TinyClr.Library

/-! ### Reading memory -/

variable {src : Nat}

theorem read_head {β : Type} {mem rest : List β} {b : β}
    (h : mem.drop src = b :: rest) : mem[src]? = some b ∧ mem.drop (src + 1) = rest := by
  refine ⟨?_, ?_⟩
  · rw [← List.head?_drop, h]
    rfl
  · rw [← List.drop_drop, h]
    rfl

theorem toNat_byte {x : Nat} (h : x < 256) : (UInt8.ofNat x).toNat = x := by
  rw [UInt8.toNat_ofNat']
  exact Nat.mod_eq_of_lt h

theorem toNat_unit {x : Nat} (h : x < 65536) : (UInt16.ofNat x).toNat = x := by
  rw [UInt16.toNat_ofNat']
  exact Nat.mod_eq_of_lt h

/-! ### Lead bytes -/

theorem and_F0 (ch : Nat) : ch &&& 0xF0 = 16 * (ch / 16 % 16) := by
  have hlow : (ch &&& 0xF0) % 2 ^ 4 = 0 := by rw [Nat.and_mod_two_pow, Nat.and_zero]
  have hhigh : (ch &&& 0xF0) / 2 ^ 4 = ch / 16 % 16 := by
    rw [Nat.and_div_two_pow]
    exact and_mask 4 rfl _
  rw [← Nat.div_add_mod (ch &&& 0xF0) (2 ^ 4), hlow, hhigh]
  rfl

theorem lead_one : ∀ ch < 0x80, lead ch = .one := by
  intro ch hch
  have hdiv : ch / 16 < 8 := by omega
  rw [lead, and_F0]
  interval_cases ch / 16 <;> rfl

theorem lead_two : ∀ ch < 0xE0, 0xC0 ≤ ch → lead ch = .two := by
  intro ch hch hlow
  have hdiv : ch / 16 < 14 := by omega
  have hdiv' : 12 ≤ ch / 16 := by omega
  rw [lead, and_F0]
  interval_cases ch / 16 <;> rfl

theorem lead_three : ∀ ch < 0xF0, 0xE0 ≤ ch → lead ch = .three := by
  intro ch hch hlow
  have hand : ch &&& 0xF0 = 0xE0 := by
    have h := and_F0 ch
    omega
  simp only [lead, hand]

theorem lead_four : ∀ ch < 0x100, 0xF0 ≤ ch → lead ch = .four := by
  intro ch hch hlow
  have hand : ch &&& 0xF0 = 0xF0 := by
    have h := and_F0 ch
    omega
  simp only [lead, hand]

theorem loadLowparts_succ {mem rest : List UInt8} {b : UInt8} (n ch2 : Nat)
    (h : mem.drop src = b :: rest) :
    loadLowparts mem (n + 1) src ch2 =
      loadLowparts mem n (src + 1) (ch2 * 64 + b.toNat % 64) := by
  rw [loadLowparts, (read_head h).1]
  change loadLowparts mem n (src + 1) (ch2 <<< 6 ||| (b.toNat &&& 0x3F)) = _
  rw [and_mask 6 (m := 0x3F) rfl, shift_or 6 ch2 (Nat.mod_lt _ (by decide))]
  rfl

/-! ### Decoding one character -/

/-- What the decoder stores for a character: the value itself, or two units that split the value
    as it is, without `SURROGATE_HALFBASE` taken off. -/
def fromUnits (c : Char) : List UInt16 :=
  if c.toNat < 0x10000 then [UInt16.ofNat c.toNat]
  else [UInt16.ofNat (c.toNat / 0x400 + 0xD800), UInt16.ofNat (c.toNat % 0x400 + 0xDC00)]

theorem length_fromUnits (c : Char) : (fromUnits c).length = (utf16Char c).length := by
  simp only [fromUnits, utf16Char]
  split_ifs <;> simp only [List.length_cons, List.length_nil]

theorem fromUnits_eq_iff (c : Char) : fromUnits c = utf16Char c ↔ c.toNat < 0x10000 := by
  have hrange := scalar_range c
  by_cases h : c.toNat < 0x10000
  · rw [fromUnits, if_pos h, utf16Char_of_lt h]
    exact ⟨fun _ => h, fun _ => rfl⟩
  · rw [fromUnits, if_neg h, utf16Char_of_le (Nat.not_lt.mp h)]
    refine ⟨fun heq => ?_, fun hlt => absurd hlt h⟩
    have hhead := congrArg UInt16.toNat (List.cons.inj heq).1
    rw [toNat_unit (by omega), toNat_unit (by omega)] at hhead
    omega

def FromState.after (s : FromState) (cs : List Char) : FromState :=
  { input := s.input + (utf8 cs).length
    output := s.output ++ cs.flatMap fromUnits
    size := s.size - (utf16 cs).length
    maxChars := s.maxChars - (utf16 cs).length
    maxBytes := s.maxBytes - (utf8 cs).length }

theorem FromState.after_nil (s : FromState) : s.after [] = s := by
  simp [FromState.after]

theorem FromState.after_cons (s : FromState) (c : Char) (cs : List Char) :
    s.after (c :: cs) = (s.after [c]).after cs := by
  simp only [FromState.after, utf8_cons, utf16_cons, utf8_nil, utf16_nil, List.append_nil,
    List.length_append, List.flatMap_cons, List.flatMap_nil, List.append_assoc,
    FromState.mk.injEq, true_and]
  omega

variable {v : Nat}

theorem fromMultiByte_read {mem : List UInt8} {s : FromState} {ch lowparts mask width : Nat}
    {units : Nat → List UInt16} (hbytes : (lowparts : Int) + 1 ≤ s.maxBytes)
    (hsize : (width : Int) ≤ s.size)
    (hload : loadLowparts mem lowparts (s.input + 1) (ch &&& mask) = some v) :
    fromMultiByte mem false s ch lowparts mask width units = some (.again
      { input := s.input + 1 + lowparts, output := s.output ++ units v, size := s.size - width,
        maxChars := s.maxChars - width, maxBytes := s.maxBytes - (lowparts + 1) }) := by
  rw [fromMultiByte, if_pos hbytes, if_neg Bool.false_ne_true, if_neg (Int.not_lt.mpr hsize), hload]
  rfl

theorem fromStep_one {mem rest : List UInt8} {s : FromState} (hv : v < 0x80)
    (hpos : v ≠ 0) (hmem : mem.drop s.input = UInt8.ofNat v :: rest) (hsize : 1 ≤ s.size) :
    fromStep mem false s = some (.again
      { input := s.input + 1, output := s.output ++ [UInt16.ofNat v], size := s.size - 1,
        maxChars := s.maxChars - 1, maxBytes := s.maxBytes - 1 }) := by
  have hbyte : (UInt8.ofNat v).toNat = v := toNat_byte (by omega)
  rw [fromStep, (read_head hmem).1]
  simp only [Option.bind_eq_bind, Option.bind_some, hbyte, lead_one v hv, if_neg hpos,
    if_neg Bool.false_ne_true, if_neg (show ¬ s.size < 1 by omega)]

theorem fromStep_two {mem rest : List UInt8} {s : FromState} (hlow : 0x80 ≤ v)
    (hv : v < 0x800)
    (hmem : mem.drop s.input =
      UInt8.ofNat (v / 64 % 0x20 + 0xC0) :: UInt8.ofNat (v % 0x40 + 0x80) :: rest)
    (hbytes : 2 ≤ s.maxBytes) (hsize : 1 ≤ s.size) :
    fromStep mem false s = some (.again
      { input := s.input + 2, output := s.output ++ [UInt16.ofNat v], size := s.size - 1,
        maxChars := s.maxChars - 1, maxBytes := s.maxBytes - 2 }) := by
  have hbyte : (UInt8.ofNat (v / 64 % 0x20 + 0xC0)).toNat = v / 64 % 0x20 + 0xC0 :=
    toNat_byte (by omega)
  have hlead : lead (v / 64 % 0x20 + 0xC0) = .two := lead_two _ (by omega) (by omega)
  obtain ⟨hread, hmem₁⟩ := read_head hmem
  have hload : loadLowparts mem 1 (s.input + 1) ((v / 64 % 0x20 + 0xC0) &&& 0x1F) = some v := by
    rw [loadLowparts_succ 0 _ hmem₁, toNat_byte (by omega), and_mask 5 (m := 0x1F) rfl, loadLowparts,
      Option.some.injEq]
    omega
  rw [fromStep, hread]
  simp only [Option.bind_eq_bind, Option.bind_some, hbyte, hlead,
    if_neg (show ¬ v / 64 % 0x20 + 0xC0 < 0xC2 by omega)]
  exact fromMultiByte_read (by omega) (by omega) hload

theorem fromStep_three {mem rest : List UInt8} {s : FromState} (hv : v < 0x10000)
    (hmem : mem.drop s.input =
      UInt8.ofNat (v / 4096 % 0x10 + 0xE0) :: UInt8.ofNat (v / 64 % 0x40 + 0x80) ::
        UInt8.ofNat (v % 0x40 + 0x80) :: rest)
    (hbytes : 3 ≤ s.maxBytes) (hsize : 1 ≤ s.size) :
    fromStep mem false s = some (.again
      { input := s.input + 3, output := s.output ++ [UInt16.ofNat v], size := s.size - 1,
        maxChars := s.maxChars - 1, maxBytes := s.maxBytes - 3 }) := by
  have hbyte : (UInt8.ofNat (v / 4096 % 0x10 + 0xE0)).toNat = v / 4096 % 0x10 + 0xE0 :=
    toNat_byte (by omega)
  have hlead : lead (v / 4096 % 0x10 + 0xE0) = .three := lead_three _ (by omega) (by omega)
  obtain ⟨hread, hmem₁⟩ := read_head hmem
  have hmem₂ := (read_head hmem₁).2
  have hload : loadLowparts mem 2 (s.input + 1) ((v / 4096 % 0x10 + 0xE0) &&& 0x0F) = some v := by
    rw [loadLowparts_succ 1 _ hmem₁, loadLowparts_succ 0 _ hmem₂, toNat_byte (by omega),
      toNat_byte (by omega), and_mask 4 (m := 0x0F) rfl, loadLowparts, Option.some.injEq]
    omega
  rw [fromStep, hread]
  simp only [Option.bind_eq_bind, Option.bind_some, hbyte, hlead]
  exact fromMultiByte_read (by omega) (by omega) hload

theorem fromStep_four {mem rest : List UInt8} {s : FromState} (hv : v < 0x110000)
    (hmem : mem.drop s.input =
      UInt8.ofNat (v / 262144 % 0x08 + 0xF0) :: UInt8.ofNat (v / 4096 % 0x40 + 0x80) ::
        UInt8.ofNat (v / 64 % 0x40 + 0x80) :: UInt8.ofNat (v % 0x40 + 0x80) :: rest)
    (hbytes : 4 ≤ s.maxBytes) (hsize : 2 ≤ s.size) :
    fromStep mem false s = some (.again
      { input := s.input + 4
        output := s.output ++
          [UInt16.ofNat (v / 0x400 + 0xD800), UInt16.ofNat (v % 0x400 + 0xDC00)]
        size := s.size - 2, maxChars := s.maxChars - 2, maxBytes := s.maxBytes - 4 }) := by
  have hbyte : (UInt8.ofNat (v / 262144 % 0x08 + 0xF0)).toNat = v / 262144 % 0x08 + 0xF0 :=
    toNat_byte (by omega)
  have hlead : lead (v / 262144 % 0x08 + 0xF0) = .four := lead_four _ (by omega) (by omega)
  obtain ⟨hread, hmem₁⟩ := read_head hmem
  have hmem₂ := (read_head hmem₁).2
  have hmem₃ := (read_head hmem₂).2
  have hload : loadLowparts mem 3 (s.input + 1) ((v / 262144 % 0x08 + 0xF0) &&& 0x07) = some v := by
    rw [loadLowparts_succ 2 _ hmem₁, loadLowparts_succ 1 _ hmem₂, loadLowparts_succ 0 _ hmem₃,
      toNat_byte (by omega), toNat_byte (by omega), toNat_byte (by omega), and_mask 3 (m := 0x07) rfl,
      loadLowparts, Option.some.injEq]
    omega
  have hhigh : v >>> SURROGATE_HALFSHIFT = v / 0x400 := Nat.shiftRight_eq_div_pow v 10
  have hlow : v &&& SURROGATE_HALFMASK = v % 0x400 := and_mask 10 rfl v
  rw [fromStep, hread]
  simp only [Option.bind_eq_bind, Option.bind_some, hbyte, hlead,
    if_neg (show ¬ 0xF5 ≤ v / 262144 % 0x08 + 0xF0 by omega)]
  rw [fromMultiByte_read (by omega) (by omega) hload, hhigh, hlow]
  rfl

variable {c : Char}

theorem fromStep_char {mem rest : List UInt8} {s : FromState} (hc : c.toNat ≠ 0)
    (hmem : mem.drop s.input = String.utf8EncodeChar c ++ rest)
    (hbytes : ((String.utf8EncodeChar c).length : Int) ≤ s.maxBytes)
    (hsize : ((utf16Char c).length : Int) ≤ s.size) :
    fromStep mem false s = some (.again (s.after [c])) := by
  have hrange := scalar_range c
  have hval : c.val.toNat = c.toNat := rfl
  simp only [FromState.after, utf8_cons, utf16_cons, utf8_nil, utf16_nil, List.append_nil,
    List.flatMap_cons, List.flatMap_nil, ← length_fromUnits] at hsize ⊢
  simp only [String.utf8EncodeChar, hval] at hmem hbytes ⊢
  by_cases h₁ : c.toNat ≤ 0x7F
  · simp only [if_pos h₁, fromUnits, if_pos (show c.toNat < 0x10000 by omega)]
      at hmem hbytes hsize ⊢
    exact fromStep_one (by omega) hc hmem hsize
  simp only [if_neg h₁] at hmem hbytes ⊢
  by_cases h₂ : c.toNat ≤ 0x7FF
  · simp only [if_pos h₂, fromUnits, if_pos (show c.toNat < 0x10000 by omega)]
      at hmem hbytes hsize ⊢
    exact fromStep_two (by omega) (by omega) hmem hbytes hsize
  simp only [if_neg h₂] at hmem hbytes ⊢
  by_cases h₃ : c.toNat ≤ 0xFFFF
  · simp only [if_pos h₃, fromUnits, if_pos (show c.toNat < 0x10000 by omega)]
      at hmem hbytes hsize ⊢
    exact fromStep_three (by omega) hmem hbytes hsize
  · simp only [if_neg h₃, fromUnits, if_neg (show ¬ c.toNat < 0x10000 by omega)]
      at hmem hbytes hsize ⊢
    exact fromStep_four (by omega) hmem hbytes hsize

/-! ### The decoding loop -/

variable {fJustMove : Bool}

theorem fromLoop_done {mem : List UInt8} {s : FromState} (fuel : Nat)
    (h : ¬ (0 < s.maxChars ∧ 0 < s.maxBytes)) :
    fromLoop mem fJustMove fuel s = some (.leave s) := by
  rw [fromLoop.eq_def]
  exact if_neg h

theorem fromLoop_chars (mem rest : List UInt8) (cs : List Char) :
    ∀ (fuel : Nat) (s : FromState), (∀ c ∈ cs, c.toNat ≠ 0) →
      mem.drop s.input = utf8 cs ++ rest → ((utf16 cs).length : Int) ≤ s.maxChars →
      ((utf8 cs).length : Int) ≤ s.maxBytes → ((utf16 cs).length : Int) ≤ s.size →
      fromLoop mem false (fuel + cs.length) s = fromLoop mem false fuel (s.after cs) := by
  induction cs with
  | nil =>
    intro fuel s _ _ _ _ _
    rw [FromState.after_nil]
    rfl
  | cons c cs ih =>
    intro fuel s hnul hmem hchars hbytes hsize
    have hbounds := length_bounds c
    simp only [utf8_cons, utf16_cons, List.length_append, List.append_assoc] at hmem hchars hbytes hsize
    have hstep := fromStep_char (hnul c List.mem_cons_self) hmem (by omega) (by omega)
    have hafter : mem.drop (s.after [c]).input = utf8 cs ++ rest := by
      simp only [FromState.after, utf8_cons, utf8_nil, List.append_nil]
      rw [← List.drop_drop, hmem, List.drop_left]
    have hrest := ih fuel (s.after [c]) (fun d hd => hnul d (List.mem_cons_of_mem c hd)) hafter
      (by simp only [FromState.after, utf16_cons, utf16_nil, List.append_nil]; omega)
      (by simp only [FromState.after, utf8_cons, utf8_nil, List.append_nil]; omega)
      (by simp only [FromState.after, utf16_cons, utf16_nil, List.append_nil]; omega)
    rw [FromState.after_cons, ← hrest, List.length_cons, ← Nat.add_assoc, fromLoop,
      if_pos (by omega), hstep]

/-- Room for output is paid for in bytes: what is written never exceeds the byte budget. -/
def Flow.Charged (s : FromState) : Flow FromState → Prop
  | .again t | .leave t | .exitFalse t =>
      0 ≤ t.maxBytes ∧ t.output.length + t.maxBytes ≤ s.output.length + s.maxBytes

theorem fromMultiByte_charged {mem : List UInt8} {s : FromState}
    {ch lowparts mask width : Nat} {units : Nat → List UInt16} {flow : Flow FromState}
    (hbytes : 0 < s.maxBytes) (hwidth : ∀ v, (units v).length ≤ lowparts + 1)
    (h : fromMultiByte mem fJustMove s ch lowparts mask width units = some flow) :
    flow.Charged s := by
  unfold fromMultiByte at h
  split_ifs at h with hfit hmove hsize
  · cases h
    simp only [Flow.Charged]
    omega
  · cases h
    simp only [Flow.Charged]
    omega
  · obtain ⟨v, -, hv⟩ := Option.bind_eq_some_iff.mp h
    cases hv
    have := hwidth v
    simp only [Flow.Charged, List.length_append]
    omega
  · cases h
    simp only [Flow.Charged]
    omega

theorem fromStep_charged {mem : List UInt8} {s : FromState}
    {flow : Flow FromState} (hbytes : 0 < s.maxBytes) (h : fromStep mem fJustMove s = some flow) :
    flow.Charged s := by
  obtain ⟨b, -, h⟩ := Option.bind_eq_some_iff.mp h
  simp only at h
  split at h
  · split_ifs at h <;> cases h <;> simp only [Flow.Charged, List.length_append,
      List.length_singleton] <;> omega
  · cases h
    simp only [Flow.Charged]
    omega
  · split_ifs at h with hoverlong
    · cases h
      simp only [Flow.Charged]
      omega
    · exact fromMultiByte_charged hbytes (fun v => by simp) h
  · exact fromMultiByte_charged hbytes (fun v => by simp) h
  · split_ifs at h with hrestricted
    · cases h
      simp only [Flow.Charged]
      omega
    · exact fromMultiByte_charged hbytes (fun v => by simp) h

theorem fromLoop_charged {mem : List UInt8} :
    ∀ (fuel : Nat) (s : FromState) (flow : Flow FromState), 0 ≤ s.maxBytes →
      fromLoop mem fJustMove fuel s = some flow → flow.Charged s := by
  intro fuel
  induction fuel with
  | zero =>
    intro s flow hbytes h
    by_cases hgo : 0 < s.maxChars ∧ 0 < s.maxBytes
    · rw [fromLoop, if_pos hgo] at h
      cases h
    · rw [fromLoop_done 0 hgo] at h
      cases h
      exact ⟨hbytes, Int.le_refl _⟩
  | succ fuel ih =>
    intro s flow hbytes h
    rw [fromLoop] at h
    split_ifs at h with hgo
    · rcases hstep : fromStep mem fJustMove s with _ | next
      · simp [hstep] at h
      · have hcharged := fromStep_charged hgo.2 hstep
        rw [hstep] at h
        cases next with
        | again t =>
          have hrest := ih t flow hcharged.1 h
          cases flow <;> exact ⟨hrest.1, Int.le_trans hrest.2 hcharged.2⟩
        | leave t => cases h; exact hcharged
        | exitFalse t => cases h; exact hcharged
    · cases h
      exact ⟨hbytes, Int.le_refl _⟩

/-! ### The encoding loop -/

/-- The encoder's state once `cs` is behind it, having counted `chars` characters. -/
def ToState.after (s : ToState) (cs : List Char) (chars : Int) : ToState :=
  { input := s.input + (utf16 cs).length
    output := s.output ++ utf8 cs
    size := s.size - (utf8 cs).length
    maxChars := s.maxChars - chars }

theorem store_fits {s : ToState} {input : Nat} {bytes : List UInt8} {maxChars : Int}
    (h : (bytes.length : Int) ≤ s.size) :
    s.store false input bytes maxChars = .again
      { input := input, output := s.output ++ bytes, size := s.size - bytes.length,
        maxChars := maxChars } := by
  rw [ToState.store, if_neg Bool.false_ne_true, if_neg (Int.not_lt.mpr h)]

theorem lowpart_eq (ch : Nat) : lowpart ch = UInt8.ofNat (ch % 0x40 + 0x80) := by
  rw [lowpart, tag_field 6 2 (show 0x80 = 2 ^ 6 * 2 from rfl) (show 0x3F = 2 ^ 6 - 1 from rfl)]
  rfl

/-- The budget a character is charged: a surrogate pair goes free. -/
def toCharge (c : Char) : Int := if c.toNat < 0x10000 then 1 else 0

variable {q r : Nat}

theorem surrogates_join (hq : q < 0x400) (hr : r < 0x400) :
    uint32 (((SURROGATE_HALFBASE + ((0xD800 + q - HIGH_SURROGATE_START) <<< SURROGATE_HALFSHIFT)
      : Nat) : Int) + (((0xDC00 + r : Nat) : Int) - LOW_SURROGATE_START)) =
      0x10000 + q * 0x400 + r := by
  have hshift : (0xD800 + q - HIGH_SURROGATE_START) <<< SURROGATE_HALFSHIFT = q * 0x400 := by
    rw [Nat.shiftLeft_eq, HIGH_SURROGATE_START, Nat.add_sub_cancel_left]
    rfl
  rw [hshift, SURROGATE_HALFBASE, LOW_SURROGATE_START, uint32_eq_toNat (by omega) (by omega)]
  omega

theorem lead_two_eq (x : Nat) : 0xC0 ||| (x &&& 0x1F) = x % 0x20 + 0xC0 := tag_field 5 6 rfl rfl x

theorem lead_three_eq (x : Nat) : 0xE0 ||| (x &&& 0x0F) = x % 0x10 + 0xE0 := tag_field 4 14 rfl rfl x

theorem lead_four_eq (x : Nat) : 0xF0 ||| (x &&& 0x07) = x % 0x08 + 0xF0 := tag_field 3 30 rfl rfl x

theorem shift_once (v : Nat) : v >>> 6 = v / 64 := Nat.shiftRight_eq_div_pow v 6

theorem shift_twice (v : Nat) : v >>> 6 >>> 6 = v / 4096 := by
  rw [shift_once, shift_once, Nat.div_div_eq_div_mul]

theorem shift_thrice (v : Nat) : v >>> 6 >>> 6 >>> 6 = v / 262144 := by
  rw [shift_twice, shift_once, Nat.div_div_eq_div_mul]

theorem toStep_unit {mem rest : List UInt16} {s : ToState} (hc : c.toNat ≠ 0)
    (hbmp : c.toNat < 0x10000) (hmem : mem.drop s.input = UInt16.ofNat c.toNat :: rest)
    (hsize : ((String.utf8EncodeChar c).length : Int) ≤ s.size) :
    toStep mem false s = some (.again
      { input := s.input + 1, output := s.output ++ String.utf8EncodeChar c
        size := s.size - (String.utf8EncodeChar c).length, maxChars := s.maxChars - 1 }) := by
  have hrange := scalar_range c
  have hval : c.val.toNat = c.toNat := rfl
  have hunit : (UInt16.ofNat c.toNat).toNat = c.toNat := toNat_unit hbmp
  rw [toStep, (read_head hmem).1]
  simp only [Option.bind_eq_bind, Option.bind_some, hunit]
  simp only [String.utf8EncodeChar, hval] at hsize ⊢
  by_cases h₁ : c.toNat ≤ 0x7F
  · simp only [if_pos h₁, if_pos (show c.toNat < 0x80 by omega), if_neg hc] at hsize ⊢
    rw [store_fits hsize]
  simp only [if_neg h₁, if_neg (show ¬ c.toNat < 0x80 by omega)] at hsize ⊢
  by_cases h₂ : c.toNat ≤ 0x7FF
  · simp only [if_pos h₂, if_pos (show c.toNat < 0x800 by omega)] at hsize ⊢
    rw [lowpart_eq, lead_two_eq, shift_once, store_fits hsize]
  · have hsurrogate : ¬ (HIGH_SURROGATE_START ≤ c.toNat ∧ c.toNat ≤ HIGH_SURROGATE_END) := by
      simp only [HIGH_SURROGATE_START, HIGH_SURROGATE_END]
      omega
    simp only [if_neg h₂, if_pos (show c.toNat ≤ 0xFFFF by omega),
      if_neg (show ¬ c.toNat < 0x800 by omega), if_neg hsurrogate] at hsize ⊢
    rw [lowpart_eq, lowpart_eq, lead_three_eq, shift_twice, shift_once, store_fits hsize]

/-- One iteration over a surrogate pair stores its four bytes and charges nothing. -/
theorem toStep_pair {mem rest : List UInt16} {s : ToState}
    (hq : q < 0x400) (hr : r < 0x400) (hc : c.toNat = 0x10000 + q * 0x400 + r)
    (hmem : mem.drop s.input = UInt16.ofNat (0xD800 + q) :: UInt16.ofNat (0xDC00 + r) :: rest)
    (hsize : ((String.utf8EncodeChar c).length : Int) ≤ s.size) :
    toStep mem false s = some (.again
      { input := s.input + 1 + 1, output := s.output ++ String.utf8EncodeChar c
        size := s.size - (String.utf8EncodeChar c).length, maxChars := s.maxChars }) := by
  have hval : c.val.toNat = c.toNat := rfl
  have hhigh : (UInt16.ofNat (0xD800 + q)).toNat = 0xD800 + q := toNat_unit (by omega)
  have hlow : (UInt16.ofNat (0xDC00 + r)).toNat = 0xDC00 + r := toNat_unit (by omega)
  obtain ⟨hread, hmem₁⟩ := read_head hmem
  have hsurrogate : HIGH_SURROGATE_START ≤ 0xD800 + q ∧ 0xD800 + q ≤ HIGH_SURROGATE_END := by
    simp only [HIGH_SURROGATE_START, HIGH_SURROGATE_END]
    omega
  rw [toStep, hread]
  simp only [Option.bind_eq_bind, Option.bind_some, hhigh, (read_head hmem₁).1, hlow,
    if_neg (show ¬ 0xD800 + q < 0x80 by omega), if_neg (show ¬ 0xD800 + q < 0x800 by omega),
    if_pos hsurrogate]
  rw [surrogates_join hq hr, ← hc]
  simp only [String.utf8EncodeChar, hval, if_neg (show ¬ c.toNat ≤ 0x7F by omega),
    if_neg (show ¬ c.toNat ≤ 0x7FF by omega), if_neg (show ¬ c.toNat ≤ 0xFFFF by omega)] at hsize ⊢
  rw [lowpart_eq, lowpart_eq, lowpart_eq, lead_four_eq, shift_thrice, shift_twice, shift_once,
    store_fits hsize]

theorem toStep_char {mem rest : List UInt16} {s : ToState} (hc : c.toNat ≠ 0)
    (hmem : mem.drop s.input = utf16Char c ++ rest)
    (hsize : ((String.utf8EncodeChar c).length : Int) ≤ s.size) :
    toStep mem false s = some (.again (s.after [c] (toCharge c))) := by
  have hrange := scalar_range c
  simp only [ToState.after, utf8_cons, utf16_cons, utf8_nil, utf16_nil, List.append_nil, toCharge]
  by_cases hbmp : c.toNat < 0x10000
  · rw [utf16Char_of_lt hbmp] at hmem ⊢
    rw [if_pos hbmp]
    exact toStep_unit hc hbmp hmem hsize
  · rw [utf16Char_of_le (Nat.not_lt.mp hbmp)] at hmem ⊢
    rw [if_neg hbmp, Int.sub_zero]
    exact toStep_pair (by omega) (by omega) (by omega) hmem hsize

/-- What a sequence of characters is charged. -/
def toCharges (cs : List Char) : Int := (cs.map toCharge).sum

theorem toCharges_cons (c : Char) (cs : List Char) :
    toCharges (c :: cs) = toCharge c + toCharges cs := by
  simp [toCharges]

theorem toCharge_bounds (c : Char) : 0 ≤ toCharge c ∧ toCharge c ≤ (utf16Char c).length := by
  have hbounds := length_bounds c
  unfold toCharge
  split_ifs <;> omega

theorem ToState.after_cons (s : ToState) (c : Char) (cs : List Char) :
    s.after (c :: cs) (toCharges (c :: cs)) =
      (s.after [c] (toCharge c)).after cs (toCharges cs) := by
  simp only [ToState.after, toCharges_cons, utf8_cons, utf16_cons, utf8_nil, utf16_nil,
    List.append_nil, List.length_append, List.append_assoc, ToState.mk.injEq, true_and]
  omega

theorem toLoop_chars (mem rest : List UInt16) (cs : List Char) :
    ∀ (fuel : Nat) (s : ToState), (∀ c ∈ cs, c.toNat ≠ 0) →
      mem.drop s.input = utf16 cs ++ rest → ((utf16 cs).length : Int) ≤ s.maxChars →
      ((utf8 cs).length : Int) ≤ s.size →
      toLoop mem false (fuel + cs.length) s =
        toLoop mem false fuel (s.after cs (toCharges cs)) := by
  induction cs with
  | nil =>
    intro fuel s _ _ _ _
    simp [ToState.after, toCharges]
  | cons c cs ih =>
    intro fuel s hnul hmem hchars hsize
    have hbounds := length_bounds c
    have hcharge := toCharge_bounds c
    simp only [utf8_cons, utf16_cons, List.length_append, List.append_assoc] at hmem hchars hsize
    have hstep := toStep_char (hnul c List.mem_cons_self) hmem (by omega)
    have hafter : mem.drop (s.after [c] (toCharge c)).input = utf16 cs ++ rest := by
      simp only [ToState.after, utf16_cons, utf16_nil, List.append_nil]
      rw [← List.drop_drop, hmem, List.drop_left]
    have hrest := ih fuel (s.after [c] (toCharge c)) (fun d hd => hnul d (List.mem_cons_of_mem c hd))
      hafter (by simp only [ToState.after]; omega)
      (by simp only [ToState.after, utf8_cons, utf8_nil, List.append_nil]; omega)
    rw [ToState.after_cons, ← hrest, List.length_cons, ← Nat.add_assoc, toLoop,
      if_pos (by omega), hstep]

/-- At the terminating zero the encoder is done, whatever is left of its character budget. -/
theorem toLoop_end (mem rest : List UInt16) {s : ToState} (fuel : Nat)
    (hmem : mem.drop s.input = 0 :: rest) :
    ∃ t, toLoop mem false (fuel + 1) s = some (.leave t) ∧ t.output = s.output ∧ t.size = s.size := by
  rw [toLoop]
  split_ifs with hgo
  · have hstep : toStep mem false s = some (.leave { s with input := s.input + 1 }) := by
      rw [toStep, (read_head hmem).1]
      rfl
    rw [hstep]
    exact ⟨_, rfl, rfl, rfl⟩
  · exact ⟨s, rfl, rfl, rfl⟩

/-! ### The counters -/

theorem checkLowparts_tail {mem : List UInt8} (tail : List UInt8) :
    ∀ {src : Nat} {rest : List UInt8}, mem.drop src = tail ++ rest →
      (∀ b ∈ tail, badLowpart b.toNat = false) →
      checkLowparts mem tail.length src = some (some (src + tail.length)) := by
  induction tail with
  | nil =>
    intro src rest _ _
    rfl
  | cons b tail ih =>
    intro src rest hmem hgood
    obtain ⟨hread, hnext⟩ := read_head hmem
    have hrest := ih hnext fun x hx => hgood x (List.mem_cons_of_mem b hx)
    rw [List.length_cons, checkLowparts, hread]
    simp only [Option.bind_eq_bind, Option.bind_some, hgood b List.mem_cons_self,
      if_neg Bool.false_ne_true, hrest]
    rw [Nat.add_assoc, Nat.add_comm 1]

theorem lowpart_good (x : Nat) : badLowpart (UInt8.ofNat (x % 0x40 + 0x80)).toNat = false := by
  rw [toNat_byte (by omega), badLowpart]
  simp only [Bool.or_eq_false_iff, decide_eq_false_iff_not]
  omega

/-- The character limit is not met while `cs` is counted: it is the default `-1`, or large
    enough. -/
def Unlimited (max : Int) (count : Nat) : Prop :=
  -2 ^ 31 ≤ max - count ∧ max < 2 ^ 31 ∧ (max < 0 ∨ (count : Int) ≤ max)

/-- The low parts a lead byte announces and the units its character counts for. -/
def announced : Lead → Nat × Nat
  | .one => (0, 1)
  | .illegal => (0, 0)
  | .two => (1, 1)
  | .three => (2, 1)
  | .four => (3, 2)

variable {max num : Int}

theorem countCharacters_sequence {mem rest tail : List UInt8}
    {head : UInt8} {units : Nat} (fuel : Nat) (hmem : mem.drop src = head :: (tail ++ rest))
    (hhead : head.toNat ≠ 0) (hlead : lead head.toNat ≠ .illegal)
    (hannounced : announced (lead head.toNat) = (tail.length, units))
    (htail : ∀ b ∈ tail, badLowpart b.toNat = false)
    (hmax : max ≠ 0) (hlow : -2 ^ 31 ≤ max - 1) (hhigh : max < 2 ^ 31) (hnum : 0 ≤ num)
    (hfit : num + units < 2 ^ 31) :
    countCharactersLoop mem (fuel + 1) src max num =
      countCharactersLoop mem fuel (src + 1 + tail.length) (max - 1) (num + units) := by
  have hmax' : int32 (max - 1) = max - 1 := int32_eq_self hlow (by omega)
  have hnum' : int32 (num + units) = num + units := int32_eq_self (by omega) hfit
  obtain ⟨hread, hnext⟩ := read_head hmem
  have hcheck := checkLowparts_tail tail hnext htail
  rw [countCharactersLoop, hread]
  simp only [Option.bind_eq_bind, Option.bind_some, if_neg hhead, if_neg hmax, hmax']
  rcases hcase : lead head.toNat with _ | _ | _ | _ | _ <;>
    simp only [hcase, announced, Prod.mk.injEq, ne_eq, not_true_eq_false] at hannounced hlead <;>
    (obtain ⟨hlength, rfl⟩ := hannounced
     rw [← hlength] at hcheck ⊢
     simp only [hcheck, Option.bind_some]
     exact congrArg _ hnum')

theorem utf8Char_shape (hc : c.toNat ≠ 0) :
    ∃ head tail, String.utf8EncodeChar c = head :: tail ∧ head.toNat ≠ 0 ∧
      lead head.toNat ≠ .illegal ∧
      announced (lead head.toNat) = (tail.length, (utf16Char c).length) ∧
      ∀ b ∈ tail, badLowpart b.toNat = false := by
  have hrange := scalar_range c
  have hval : c.val.toNat = c.toNat := rfl
  simp only [String.utf8EncodeChar, hval]
  split_ifs with h₁ h₂ h₃
  · have hbyte : (UInt8.ofNat c.toNat).toNat = c.toNat := toNat_byte (by omega)
    have hone := lead_one c.toNat (by omega)
    rw [utf16Char_of_lt (by omega)]
    exact ⟨_, _, rfl, by rwa [hbyte], by simp [hbyte, hone], by simp [hbyte, hone, announced],
      by simp⟩
  · have hbyte : (UInt8.ofNat (c.toNat / 64 % 0x20 + 0xC0)).toNat = c.toNat / 64 % 0x20 + 0xC0 :=
      toNat_byte (by omega)
    have htwo := lead_two (c.toNat / 64 % 0x20 + 0xC0) (by omega) (by omega)
    rw [utf16Char_of_lt (by omega)]
    exact ⟨_, _, rfl, by rw [hbyte]; omega, by rw [hbyte, htwo]; decide,
      by rw [hbyte, htwo]; rfl, by simp only [List.forall_mem_cons, List.not_mem_nil, false_implies, implies_true, lowpart_good, and_self]⟩
  · have hbyte : (UInt8.ofNat (c.toNat / 4096 % 0x10 + 0xE0)).toNat =
      c.toNat / 4096 % 0x10 + 0xE0 := toNat_byte (by omega)
    have hthree := lead_three (c.toNat / 4096 % 0x10 + 0xE0) (by omega) (by omega)
    rw [utf16Char_of_lt (by omega)]
    exact ⟨_, _, rfl, by rw [hbyte]; omega, by rw [hbyte, hthree]; decide,
      by rw [hbyte, hthree]; rfl, by simp only [List.forall_mem_cons, List.not_mem_nil, false_implies, implies_true, lowpart_good, and_self]⟩
  · have hbyte : (UInt8.ofNat (c.toNat / 262144 % 0x08 + 0xF0)).toNat =
      c.toNat / 262144 % 0x08 + 0xF0 := toNat_byte (by omega)
    have hfour := lead_four (c.toNat / 262144 % 0x08 + 0xF0) (by omega) (by omega)
    rw [utf16Char_of_le (by omega)]
    exact ⟨_, _, rfl, by rw [hbyte]; omega, by rw [hbyte, hfour]; decide,
      by rw [hbyte, hfour]; rfl, by simp only [List.forall_mem_cons, List.not_mem_nil, false_implies, implies_true, lowpart_good, and_self]⟩

theorem countCharacters_char {mem rest : List UInt8}
    (fuel : Nat) (hc : c.toNat ≠ 0) (hmem : mem.drop src = String.utf8EncodeChar c ++ rest)
    (hmax : max ≠ 0) (hlow : -2 ^ 31 ≤ max - 1) (hhigh : max < 2 ^ 31) (hnum : 0 ≤ num)
    (hfit : num + (utf16Char c).length < 2 ^ 31) :
    countCharactersLoop mem (fuel + 1) src max num =
      countCharactersLoop mem fuel (src + (String.utf8EncodeChar c).length) (max - 1)
        (num + (utf16Char c).length) := by
  obtain ⟨head, tail, henc, hhead, hlead, hannounced, htail⟩ := utf8Char_shape hc
  rw [henc] at hmem ⊢
  rw [countCharacters_sequence fuel hmem hhead hlead hannounced htail hmax hlow hhigh hnum hfit,
    List.length_cons, Nat.add_assoc, Nat.add_comm 1]

theorem countCharactersLoop_chars (mem rest : List UInt8) (cs : List Char) :
    ∀ (fuel src : Nat) (max num : Int), (∀ c ∈ cs, c.toNat ≠ 0) →
      mem.drop src = utf8 cs ++ 0 :: rest → Unlimited max cs.length → 0 ≤ num →
      num + (utf16 cs).length < 2 ^ 31 →
      countCharactersLoop mem (fuel + 1 + cs.length) src max num =
        some (num + (utf16 cs).length) := by
  induction cs with
  | nil =>
    intro fuel src max num _ hmem _ _ _
    rw [List.length_nil, countCharactersLoop, (read_head hmem).1]
    simp
  | cons c cs ih =>
    intro fuel src max num hnul hmem hmax hnum hfit
    obtain ⟨hlow, hhigh, hlimit⟩ := hmax
    simp only [utf8_cons, utf16_cons, List.length_append, List.length_cons, List.append_assoc]
      at hmem hlow hlimit hfit ⊢
    have hafter : mem.drop (src + (String.utf8EncodeChar c).length) = utf8 cs ++ 0 :: rest := by
      rw [← List.drop_drop, hmem, List.drop_left]
    rw [← Nat.add_assoc, countCharacters_char (fuel + 1 + cs.length) (hnul c List.mem_cons_self)
      hmem (by omega) (by omega) hhigh hnum (by omega),
      ih fuel _ _ _ (fun d hd => hnul d (List.mem_cons_of_mem c hd)) hafter
        ⟨by omega, by omega, by omega⟩ (by omega) (by omega), Option.some.injEq]
    omega

theorem countBytes_unit {mem rest : List UInt16}
    (fuel : Nat) (hc : c.toNat ≠ 0) (hbmp : c.toNat < 0x10000)
    (hmem : mem.drop src = UInt16.ofNat c.toNat :: rest) (hmax : max ≠ 0) :
    countBytesLoop mem (fuel + 1) src max num =
      countBytesLoop mem fuel (src + 1) (int32 (max - 1))
        (int32 (num + (String.utf8EncodeChar c).length)) := by
  have hrange := scalar_range c
  have hval : c.val.toNat = c.toNat := rfl
  have hunit : (UInt16.ofNat c.toNat).toNat = c.toNat := toNat_unit hbmp
  have hlow : ¬ (LOW_SURROGATE_START ≤ c.toNat ∧ c.toNat ≤ LOW_SURROGATE_END) := by
    simp only [LOW_SURROGATE_START, LOW_SURROGATE_END]
    omega
  have hhigh : ¬ (HIGH_SURROGATE_START ≤ c.toNat ∧ c.toNat ≤ HIGH_SURROGATE_END) := by
    simp only [HIGH_SURROGATE_START, HIGH_SURROGATE_END]
    omega
  rw [countBytesLoop, (read_head hmem).1]
  simp only [Option.bind_eq_bind, Option.bind_some, hunit, if_neg hc, if_neg hmax, if_neg hlow,
    if_neg hhigh, String.utf8EncodeChar, hval]
  split_ifs <;> first | omega | rfl

theorem countBytes_pair {mem rest : List UInt16}
    (fuel : Nat) (hq : q < 0x400) (hr : r < 0x400)
    (hmem : mem.drop src = UInt16.ofNat (0xD800 + q) :: UInt16.ofNat (0xDC00 + r) :: rest)
    (hmax : max ≠ 0) :
    countBytesLoop mem (fuel + 1) src max num =
      countBytesLoop mem fuel (src + 2) (int32 (max - 1)) (int32 (num + 4)) := by
  have hhigh : (UInt16.ofNat (0xD800 + q)).toNat = 0xD800 + q := toNat_unit (by omega)
  have hlow : (UInt16.ofNat (0xDC00 + r)).toNat = 0xDC00 + r := toNat_unit (by omega)
  obtain ⟨hread, hmem₁⟩ := read_head hmem
  have hnotLow : ¬ (LOW_SURROGATE_START ≤ 0xD800 + q ∧ 0xD800 + q ≤ LOW_SURROGATE_END) := by
    simp only [LOW_SURROGATE_START, LOW_SURROGATE_END]
    omega
  have hisHigh : HIGH_SURROGATE_START ≤ 0xD800 + q ∧ 0xD800 + q ≤ HIGH_SURROGATE_END := by
    simp only [HIGH_SURROGATE_START, HIGH_SURROGATE_END]
    omega
  have hisLow : LOW_SURROGATE_START ≤ 0xDC00 + r ∧ 0xDC00 + r ≤ LOW_SURROGATE_END := by
    simp only [LOW_SURROGATE_START, LOW_SURROGATE_END]
    omega
  rw [countBytesLoop, hread]
  simp only [Option.bind_eq_bind, Option.bind_some, hhigh, if_neg hmax,
    if_neg (show ¬ 0xD800 + q = 0 by omega), if_neg (show ¬ 0xD800 + q < 0x80 by omega),
    if_neg (show ¬ 0xD800 + q < 0x800 by omega), if_neg hnotLow, if_pos hisHigh,
    (read_head hmem₁).1, hlow, if_pos hisLow]

theorem countBytes_char {mem rest : List UInt16}
    (fuel : Nat) (hc : c.toNat ≠ 0) (hmem : mem.drop src = utf16Char c ++ rest)
    (hmax : max ≠ 0) :
    countBytesLoop mem (fuel + 1) src max num =
      countBytesLoop mem fuel (src + (utf16Char c).length) (int32 (max - 1))
        (int32 (num + (String.utf8EncodeChar c).length)) := by
  have hrange := scalar_range c
  have hval : c.val.toNat = c.toNat := rfl
  by_cases hbmp : c.toNat < 0x10000
  · rw [utf16Char_of_lt hbmp] at hmem ⊢
    exact countBytes_unit fuel hc hbmp hmem hmax
  · have hlength : (String.utf8EncodeChar c).length = 4 := by
      simp only [String.utf8EncodeChar, hval, if_neg (show ¬ c.toNat ≤ 0x7F by omega),
        if_neg (show ¬ c.toNat ≤ 0x7FF by omega), if_neg (show ¬ c.toNat ≤ 0xFFFF by omega)]
      rfl
    rw [utf16Char_of_le (Nat.not_lt.mp hbmp)] at hmem ⊢
    rw [hlength]
    exact countBytes_pair fuel (by omega) (by omega) hmem hmax

theorem countBytesLoop_chars (mem rest : List UInt16) (cs : List Char) :
    ∀ (fuel src : Nat) (max num : Int), (∀ c ∈ cs, c.toNat ≠ 0) →
      mem.drop src = utf16 cs ++ 0 :: rest → Unlimited max cs.length → 0 ≤ num →
      num + (utf8 cs).length < 2 ^ 31 →
      countBytesLoop mem (fuel + 1 + cs.length) src max num = some (num + (utf8 cs).length) := by
  induction cs with
  | nil =>
    intro fuel src max num _ hmem _ _ _
    rw [List.length_nil, countBytesLoop, (read_head hmem).1]
    simp
  | cons c cs ih =>
    intro fuel src max num hnul hmem hmax hnum hfit
    obtain ⟨hlow, hhigh, hlimit⟩ := hmax
    simp only [utf8_cons, utf16_cons, List.length_append, List.length_cons, List.append_assoc]
      at hmem hlow hlimit hfit ⊢
    have hafter : mem.drop (src + (utf16Char c).length) = utf16 cs ++ 0 :: rest := by
      rw [← List.drop_drop, hmem, List.drop_left]
    rw [← Nat.add_assoc, countBytes_char (fuel + 1 + cs.length) (hnul c List.mem_cons_self)
      hmem (by omega), int32_eq_self (by omega) (by omega), int32_eq_self (by omega) (by omega),
      ih fuel _ _ _ (fun d hd => hnul d (List.mem_cons_of_mem c hd)) hafter
        ⟨by omega, by omega, by omega⟩ (by omega) (by omega), Option.some.injEq]
    omega

end TinyClr.UnicodeHelper
