import TinyClr.Library.Transfers
import TinyClr.Pal.UsbConfigurationContents
import TinyClr.Pal.UsbControl

/-!
# How a control reply is sent

If a handler leaves no more than what is expected to send, or less than a packet, then the callback
sends it in packets and takes itself away, and `Expected` does not wrap around.
-/

namespace TinyClr.UsbControl

open TinyClr.Library
open TinyClr.UsbConfiguration

variable {t : Tables} {s s' : Controller}

/-! ### Reading -/

def Holds (t : Tables) (s : Controller) (p : Pointer) (data : List UInt8) : Prop :=
  ∀ (i : Nat) (hi : i < data.length),
    readByte t s { p with offset := p.offset + i } = some data[i]

def contents (c : Configuration) (p n : Nat) : List UInt8 := (List.range n).map fun i => c.byte (p + i)

@[simp] theorem length_contents (c : Configuration) (p n : Nat) : (contents c p n).length = n := by
  simp [contents]

theorem holds_contents {p n : Nat} (h : p + n ≤ t.configuration.length) :
    Holds t s ⟨.configuration, p⟩ (contents t.configuration p n) := by
  intro i hi
  rw [length_contents] at hi
  simp only [readByte, contents, List.getElem_map, List.getElem_range]
  rw [if_pos (by omega)]

theorem copyFrom_holds {p : Pointer} {data : List UInt8} (h : Holds t s p data) {n : Nat}
    (hn : n ≤ data.length) : copyFrom t s (some p) n = (data.take n).map some := by
  apply List.ext_getElem
  · simp [copyFrom, hn]
  · intro i hi hi'
    rw [List.length_map, List.length_take] at hi'
    simp only [copyFrom, List.getElem_map, List.getElem_range, Option.bind_some, List.getElem_take]
    exact h i (by omega)

theorem copyFrom_append (p : Option Pointer) (m n : Nat) : copyFrom t s p (m + n) =
    copyFrom t s p m ++
      copyFrom t s (p.map fun p => { p with offset := p.offset + m }) n := by
  unfold copyFrom
  rw [List.range_add, List.map_append, List.map_map]
  congr 1
  refine List.map_congr_left fun i _ => ?_
  cases p with
  | none => rfl
  | some p => simp [Nat.add_assoc]

/-! ### Sending -/

/-- `State->Expected -= length` goes below zero. -/
def Wraps (s : Controller) : Prop :=
  min s.packetSize.toNat s.residualCount.toNat = s.packetSize.toNat ∧
    s.expected.toNat < s.packetSize.toNat

def Ready (s : Controller) : Prop :=
  s.dataCallback = true → s.residualCount.toNat ≤ s.expected.toNat ∨
    s.residualCount.toNat < s.packetSize.toNat

theorem Ready.not_wraps (h : Ready s) (hcallback : s.dataCallback = true) : ¬ Wraps s := by
  rintro ⟨hfull, hless⟩
  have := h hcallback
  omega

@[simp] theorem usbDataCallback_packetSize : (usbDataCallback t s).packetSize = s.packetSize := rfl

theorem copyFrom_usbDataCallback : copyFrom t (usbDataCallback t s) = copyFrom t s := rfl

theorem usbDataCallback_full (hfull : s.packetSize.toNat ≤ s.residualCount.toNat)
    (hexpected : s.packetSize.toNat ≤ s.expected.toNat) :
    (usbDataCallback t s).data = copyFrom t s s.residualData s.packetSize.toNat ∧
      (usbDataCallback t s).residualData =
        s.residualData.map (fun p => { p with offset := p.offset + s.packetSize.toNat }) ∧
      (usbDataCallback t s).residualCount.toNat = s.residualCount.toNat - s.packetSize.toNat ∧
      (usbDataCallback t s).expected.toNat = s.expected.toNat - s.packetSize.toNat ∧
      ((usbDataCallback t s).dataCallback = true ↔ s.packetSize.toNat < s.expected.toNat) := by
  have hmin : min s.packetSize.toNat s.residualCount.toNat = s.packetSize.toNat := by omega
  have hsize : s.packetSize.toNat < UInt16.size := Nat.lt_trans s.packetSize.toNat_lt (by decide)
  have hword : (UInt16.ofNat s.packetSize.toNat).toNat = s.packetSize.toNat :=
    UInt16.toNat_ofNat_of_lt' hsize
  have hcount : (s.residualCount - UInt16.ofNat s.packetSize.toNat).toNat =
      s.residualCount.toNat - s.packetSize.toNat := by
    rw [UInt16.toNat_sub_of_le _ _ (UInt16.le_iff_toNat_le.mpr (by omega)), hword]
  have hrest : (s.expected - UInt16.ofNat s.packetSize.toNat).toNat =
      s.expected.toNat - s.packetSize.toNat := by
    rw [UInt16.toNat_sub_of_le _ _ (UInt16.le_iff_toNat_le.mpr (by omega)), hword]
  simp only [usbDataCallback, hmin, if_true]
  refine ⟨trivial, trivial, hcount, hrest, ?_⟩
  rw [decide_eq_true_iff, ne_eq, ← UInt16.toNat_inj, hrest]
  simp
  omega

theorem usbDataCallback_short (hshort : s.residualCount.toNat < s.packetSize.toNat) :
    (usbDataCallback t s).data = copyFrom t s s.residualData s.residualCount.toNat ∧
      (usbDataCallback t s).dataCallback = false := by
  have hmin : min s.packetSize.toNat s.residualCount.toNat = s.residualCount.toNat := by omega
  simp only [usbDataCallback, hmin]
  rw [if_neg (by omega)]
  exact ⟨trivial, by simp⟩

theorem Ready.usbDataCallback (h : Ready s) (hcallback : s.dataCallback = true) :
    Ready (usbDataCallback t s) := by
  intro hagain
  by_cases hfull : s.packetSize.toNat ≤ s.residualCount.toNat
  · have := h hcallback
    obtain ⟨-, -, hcount, hexpected, -⟩ := usbDataCallback_full (t := t) hfull (by omega)
    left
    omega
  · obtain ⟨-, hdone⟩ := usbDataCallback_short (t := t) (Nat.lt_of_not_le hfull)
    rw [hdone] at hagain
    exact absurd hagain (by simp)

theorem ready_of_reaches {packets : List (List (Option UInt8))}
    {u : Controller × List (List (Option UInt8))} (h : Ready s)
    (hreaches : Reaches (sendStep t) (s, packets) u) : Ready u.1 := by
  induction hreaches with
  | refl => exact h
  | @tail u v _ hstep ih =>
    obtain ⟨u, packets⟩ := u
    by_cases hcallback : u.dataCallback = true
    · rw [sendStep, if_pos hcallback] at hstep
      obtain rfl := Except.ok.inj hstep
      exact ih.usbDataCallback hcallback
    · rw [sendStep, if_neg hcallback] at hstep
      exact absurd hstep (by simp)

/-- **The callback** sends what is left in packets. -/
theorem sends (hsize : 0 < s.packetSize.toNat) (h : Ready s) (hcallback : s.dataCallback = true)
    (sent : List (List (Option UInt8))) :
    ∃ s' packets, Ends (sendStep t) (s, sent) (s', sent ++ packets) ∧
      Packets s.packetSize.toNat s.expected.toNat
        (copyFrom t s s.residualData s.residualCount.toNat) packets := by
  have hstops : ∀ (u : Controller) packets, u.dataCallback = false →
      Ends (sendStep t) (u, packets) (u, packets) := by
    intro u packets hu
    refine .stop ?_
    simp [sendStep, hu]
  induction hn : s.residualCount.toNat using Nat.strongRecOn generalizing s sent with
  | ind n ih =>
    subst hn
    have hnext : sendStep t (s, sent) =
        .ok (usbDataCallback t s, sent ++ [(usbDataCallback t s).data]) := if_pos hcallback
    by_cases hfull : s.packetSize.toNat ≤ s.residualCount.toNat
    · have hready := h hcallback
      obtain ⟨hdata, hpointer, hcount, hexpected, hagain⟩ :=
        usbDataCallback_full (t := t) hfull (by omega)
      have hpacket : (copyFrom t s s.residualData s.packetSize.toNat).length =
          s.packetSize.toNat := by simp [copyFrom]
      by_cases hmore : s.packetSize.toNat < s.expected.toNat
      · obtain ⟨s', packets, hends, hpackets⟩ := @ih _
          (by omega : (usbDataCallback t s).residualCount.toNat < s.residualCount.toNat)
          (usbDataCallback t s) hsize (h.usbDataCallback hcallback) (hagain.mpr hmore)
          (sent ++ [(usbDataCallback t s).data]) rfl
        rw [List.append_assoc] at hends
        refine ⟨s', _, .next hnext hends, ?_⟩
        rw [hexpected, hcount, hpointer, copyFrom_usbDataCallback] at hpackets
        have hsplit : s.residualCount.toNat =
            s.packetSize.toNat + (s.residualCount.toNat - s.packetSize.toNat) := by omega
        rw [hsplit, copyFrom_append, List.singleton_append, hdata]
        exact .more hpacket hmore hpackets
      · have hall : s.residualCount.toNat = s.packetSize.toNat := by omega
        have hend : s.expected.toNat = s.packetSize.toNat := by omega
        refine ⟨_, _, .next hnext (hstops _ _ ?_), ?_⟩
        · rw [← Bool.not_eq_true, hagain]
          exact hmore
        · rw [hend, hall, hdata]
          exact .reached hpacket
    · have hshort := Nat.lt_of_not_le hfull
      obtain ⟨hdata, hdone⟩ := usbDataCallback_short (t := t) hshort
      refine ⟨_, _, .next hnext (hstops _ _ hdone), ?_⟩
      rw [hdata]
      refine .short ?_
      simpa [copyFrom] using hshort

end TinyClr.UsbControl
