import Mathlib.Data.List.Basic

/-!
# Data sent in packets

Data goes out in full packets; a packet that is not full ends it, or that as much was sent as was
asked for.
-/

namespace TinyClr.Library

variable {α : Type*}

/-- `data` in packets of at most `n`, where `asked` is what the other side waits for -/
inductive Packets (n : Nat) : Nat → List α → List (List α) → Prop
  | short {asked : Nat} {data : List α} : data.length < n → Packets n asked data [data]
  | reached {data : List α} : data.length = n → Packets n n data [data]
  | more {asked : Nat} {packet data : List α} {packets : List (List α)} : packet.length = n →
      n < asked → Packets n (asked - n) data packets →
      Packets n asked (packet ++ data) (packet :: packets)

/-- The packets hold the data, only the last may not be full, and after it the other side knows that
    there is no more. -/
structure Delimited (n asked : Nat) (data : List α) (packets : List (List α)) : Prop where
  flatten : packets.flatten = data
  bounded : ∀ p ∈ packets, p.length ≤ n
  full : ∀ p ∈ packets.dropLast, p.length = n
  ended : data.length = asked ∨ ∃ p ∈ packets.getLast?, p.length < n

variable {n asked : Nat} {data : List α} {packets : List (List α)}

theorem Packets.ne_nil (h : Packets n asked data packets) : packets ≠ [] := by
  cases h <;> simp

/-- Data that fits into a packet with room to spare goes out in one, whatever is asked for. -/
theorem Packets.of_short (h : Packets n asked data packets) (hlt : data.length < n) (asked' : Nat) :
    Packets n asked' data packets := by
  cases h with
  | short _ => exact .short hlt
  | reached hlength => exact absurd hlt (Nat.not_lt.mpr (Nat.le_of_eq hlength.symm))
  | more hlength _ _ =>
    rw [List.length_append] at hlt
    omega

/-- **Packets** are delimited. -/
theorem Packets.delimited (h : Packets n asked data packets) : Delimited n asked data packets := by
  induction h with
  | @short asked data hlt => exact
      ⟨by simp, by simpa using Nat.le_of_lt hlt, by simp, Or.inr ⟨data, by simp, hlt⟩⟩
  | @reached data hlength => exact ⟨by simp, by simp [hlength], by simp, Or.inl hlength⟩
  | @more asked packet data packets hlength hlt hrest ih =>
    refine ⟨?_, ?_, ?_, ?_⟩
    · rw [List.flatten_cons, ih.flatten]
    · exact List.forall_mem_cons.mpr ⟨Nat.le_of_eq hlength, ih.bounded⟩
    · rw [List.dropLast_cons_of_ne_nil hrest.ne_nil]
      exact List.forall_mem_cons.mpr ⟨hlength, ih.full⟩
    · rcases ih.ended with hall | ⟨p, hp, hshort⟩
      · left
        rw [List.length_append, hlength, hall]
        omega
      · right
        refine ⟨p, ?_, hshort⟩
        rw [List.getLast?_cons_of_ne_nil hrest.ne_nil]
        exact hp

end TinyClr.Library
