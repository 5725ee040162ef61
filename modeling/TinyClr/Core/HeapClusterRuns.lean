import TinyClr.Core.HeapClusterSpec
import Mathlib.Data.List.Chain

/-!
# Runs over a heap cluster

`RecoverFromGC` rebuilds the free list from the tiling alone, so it restores the invariant from
any tiling: the one `PrepareForRecovery` leaves at the start, and the one marking leaves in a run.
The invariant then holds over every run of the cluster's calls.
-/

namespace TinyClr.Heap

open TinyClr.Library

variable {hc hc' : HeapCluster} {blocks xs ys : List Nat} {headers : Headers} {stop : Nat}

/-! ### `RecoverFromGC` -/

/-- The run of dead blocks, and what is behind it. -/
theorem deadRun_spec : ∀ (fuel next lenTot : Nat), Tiles headers.size next xs stop →
    next < stop → stop < fuel + next →
    ∃ x run rest next', xs = x :: run ++ rest ∧ Tiles headers.size next (x :: run) next' ∧
      Tiles headers.size next' rest stop ∧ (∀ a ∈ run, (headers a).flags.alive = false) ∧
      (∀ a ∈ rest.head?, (headers a).flags.alive = true) ∧
      deadRun headers stop fuel next lenTot = some (next', lenTot + (next' - next)) := by
  induction xs with
  | nil =>
    intro fuel next lenTot htiles hlt
    cases htiles
    omega
  | cons x xs ih =>
    intro fuel next lenTot htiles hlt hfuel
    obtain ⟨rfl, hpos, hrest⟩ := Tiles.cons_iff.mp htiles
    cases fuel with
    | zero => omega
    | succ fuel =>
      rw [deadRun]
      by_cases hgo : x + headers.size x < stop ∧
          (headers (x + headers.size x)).flags.alive = false
      · simp only [hgo, and_self, if_true]
        obtain ⟨y, run, rest, next', rfl, hrun, hrest', hdead, hhead, heq⟩ :=
          ih fuel _ (lenTot + headers.size x) hrest hgo.1 (by omega)
        have hy := (Tiles.cons_iff.mp hrun).1
        have hle := hrun.le
        refine ⟨x, y :: run, rest, next', rfl, Tiles.cons hpos hrun, hrest', ?_, hhead, ?_⟩
        · intro a ha
          rcases List.mem_cons.mp ha with rfl | ha
          · rw [hy]
            exact hgo.2
          · exact hdead a ha
        · rw [heq]
          congr 2
          omega
      · simp only [hgo, if_false]
        refine ⟨x, [], xs, x + headers.size x, rfl, Tiles.single_iff.mpr ⟨rfl, hpos, rfl⟩, hrest,
          by simp, ?_, by rw [Nat.add_sub_cancel_left]⟩
        intro a ha
        cases hrest with
        | nil => simp at ha
        | cons _ hrest' =>
          obtain rfl : x + headers.size x = a := by simpa using ha
          have hle := hrest'.le
          rw [not_and, Bool.not_eq_false] at hgo
          exact hgo (by omega)

/-- What the loop leaves of the blocks `xs` behind `ptr`: the blocks `ys`. -/
structure Recovered (headers headers' : Headers) (ptr : Nat) (xs ys : List Nat) (stop : Nat) :
    Prop where
  tiles : Tiles headers'.size ptr ys stop
  before : ∀ a < ptr, headers' a = headers a
  free_dead : ∀ a ∈ ys, (headers' a).dataType = .freeblock → (headers' a).flags.alive = false
  kept : ∀ a ∈ xs, (headers a).flags.alive = true →
    a ∈ ys ∧ headers' a = if (headers a).flags.event then headers a else (headers a).markDead
  apart : ys.IsChain fun a b =>
    ¬((headers' a).dataType = .freeblock ∧ (headers' b).dataType = .freeblock)

theorem Recovered.free_run {headers' : Headers} {x next : Nat} {run rest : List Nat}
    (hrun : Tiles headers.size x (x :: run) next) (hbehind : Tiles headers.size next rest stop)
    (hmax : stop ≤ x + HB_MaxSize) (hdead : ∀ a ∈ x :: run, (headers a).flags.alive = false)
    (hhead : ∀ a ∈ rest.head?, (headers a).flags.alive = true)
    (hfree : ∀ a ∈ rest, (headers a).dataType = .freeblock → (headers a).flags.alive = false)
    (hrec : Recovered (headers.set x (freeId (next - x))) headers' next rest ys stop) :
    headers' x = freeId (next - x) ∧
      Recovered headers headers' x (x :: run ++ rest) (x :: ys) stop := by
  obtain ⟨-, hpos, hrunRest⟩ := Tiles.cons_iff.mp hrun
  have hsize : x < next := by
    have hle := hrunRest.le
    omega
  have hnext := hbehind.le
  have hset : ∀ a, a ≠ x → headers.set x (freeId (next - x)) a = headers a :=
    fun a ha => Headers.set_of_ne _ _ ha
  have hrestNe : ∀ a ∈ rest, a ≠ x := by
    intro a ha
    have hafter := (hbehind.mem ha).1
    omega
  have hself : headers' x = freeId (next - x) := by
    rw [hrec.before x hsize, Headers.set_self]
  have hid : headers'.size x = next - x := by
    rw [Headers.size, hself]
    exact rawId_dataSize (by omega)
  refine ⟨hself, Tiles.cons (by omega) ?_, ?_, ?_, ?_, ?_⟩
  · rw [hid, Nat.add_sub_cancel' (by omega)]
    exact hrec.tiles
  · intro a ha
    rw [hrec.before a (by omega), hset a (by omega)]
  · intro a ha
    rcases List.mem_cons.mp ha with rfl | ha
    · intro _
      rw [hself]
      rfl
    · exact hrec.free_dead a ha
  · intro a ha hasAlive
    rcases List.mem_append.mp ha with ha | ha
    · rw [hdead a ha] at hasAlive
      exact absurd hasAlive (by decide)
    · have hkept := hrec.kept a ha
      rw [hset a (hrestNe a ha)] at hkept
      exact ⟨List.mem_cons_of_mem x (hkept hasAlive).1, (hkept hasAlive).2⟩
  · -- behind the run there is nothing, or a block that is alive
    refine List.isChain_cons.mpr ⟨fun b hb => ?_, hrec.apart⟩
    rintro ⟨-, hbfree⟩
    cases hys : ys with
    | nil => simp [hys] at hb
    | cons b' ys' =>
      obtain rfl : b' = b := by simpa [hys] using hb
      have htilesYs := hrec.tiles
      rw [hys] at htilesYs
      obtain ⟨rfl, hposB, hrestB⟩ := Tiles.cons_iff.mp htilesYs
      have hrestLe := hrestB.le
      cases hbehind with
      | nil => omega
      | cons hposNext hrestNext =>
        have hnextAlive := hhead b' (by simp)
        have hkept := hrec.kept b' List.mem_cons_self
        rw [hset b' (by omega)] at hkept
        have hnotFree : (headers b').dataType ≠ .freeblock := by
          intro hfreeblock
          rw [hfree b' List.mem_cons_self hfreeblock] at hnextAlive
          exact absurd hnextAlive (by decide)
        rw [(hkept hnextAlive).2] at hbfree
        split at hbfree
        · exact hnotFree hbfree
        · exact hnotFree hbfree

theorem Recovered.unmark {headers' : Headers} {ptr : Nat} (hpos : 0 < headers.size ptr)
    (hrest : Tiles headers.size (ptr + headers.size ptr) xs stop)
    (hnotFree : (headers ptr).dataType ≠ .freeblock) {after : Headers}
    (hptr : after ptr =
      if (headers ptr).flags.event then headers ptr else (headers ptr).markDead)
    (hother : ∀ a, a ≠ ptr → after a = headers a)
    (hrec : Recovered after headers' (ptr + headers.size ptr) xs ys stop) :
    (headers' ptr).dataType ≠ .freeblock ∧
      Recovered headers headers' ptr (ptr :: xs) (ptr :: ys) stop := by
  have hself : headers' ptr = after ptr := hrec.before ptr (by omega)
  have hselfNot : (headers' ptr).dataType ≠ .freeblock := by
    rw [hself, hptr]
    split
    · exact hnotFree
    · exact hnotFree
  have hselfSize : headers'.size ptr = headers.size ptr := by
    rw [Headers.size, hself, hptr]
    split <;> rfl
  have hrestNe : ∀ a ∈ xs, a ≠ ptr := by
    intro a ha
    have hbeyond := (hrest.mem ha).1
    omega
  refine ⟨hselfNot, Tiles.cons (by omega) ?_, ?_, ?_, ?_, ?_⟩
  · rw [hselfSize]
    exact hrec.tiles
  · intro a ha
    rw [hrec.before a (by omega), hother a (by omega)]
  · intro a ha
    rcases List.mem_cons.mp ha with rfl | ha
    · exact fun hfreeblock => absurd hfreeblock hselfNot
    · exact hrec.free_dead a ha
  · intro a ha hasAlive
    rcases List.mem_cons.mp ha with rfl | ha
    · exact ⟨List.mem_cons_self, hself.trans hptr⟩
    · have hkept := hrec.kept a ha
      rw [hother a (hrestNe a ha)] at hkept
      exact ⟨List.mem_cons_of_mem ptr (hkept hasAlive).1, (hkept hasAlive).2⟩
  · exact List.isChain_cons.mpr ⟨fun b _ hboth => hselfNot hboth.1, hrec.apart⟩

theorem recoverLoop_spec : ∀ (fuel ptr : Nat) (headers : Headers) (free xs : List Nat),
    Tiles headers.size ptr xs stop → stop ≤ ptr + HB_MaxSize → stop < fuel + ptr →
    (∀ a ∈ xs, (headers a).dataType = .freeblock → (headers a).flags.alive = false) →
    ∃ headers' ys, Recovered headers headers' ptr xs ys stop ∧
      recoverLoop stop fuel ptr headers free = some (headers',
        free ++ ys.filter fun a => (headers' a).dataType = .freeblock) := by
  intro fuel
  induction fuel with
  | zero =>
    intro ptr headers free xs htiles _ hfuel
    have hle := htiles.le
    omega
  | succ fuel ih =>
    intro ptr headers free xs htiles hmax hfuel hfree
    rw [recoverLoop]
    cases htiles with
    | nil =>
      rw [if_neg (Nat.lt_irrefl _)]
      refine ⟨headers, [], ⟨Tiles.nil stop, fun _ _ => rfl, ?_, ?_, List.IsChain.nil⟩, by simp⟩
      · exact fun a ha => absurd ha List.not_mem_nil
      · exact fun a ha => absurd ha List.not_mem_nil
    | @cons _ _ xs hpos hrest =>
      have hle := hrest.le
      rw [if_pos (show ptr < stop by omega)]
      by_cases halive : (headers ptr).flags.alive = false
      · rw [if_pos halive]
        obtain ⟨x, run, rest, next, heq, hrun, hbehind, hdead, hhead, hdef⟩ :=
          deadRun_spec (stop + 1) ptr 0 (Tiles.cons hpos hrest)
            (show ptr < stop by omega) (by omega)
        obtain ⟨rfl, hposX, hrunRest⟩ := Tiles.cons_iff.mp hrun
        obtain ⟨-, hxs⟩ := List.cons.inj heq
        subst hxs
        have hnext := hbehind.le
        have hrunLe := hrunRest.le
        rw [hdef]
        simp only [Option.bind_eq_bind, Option.bind_some, Nat.zero_add]
        have hsame : ∀ a ∈ rest, headers.set x (freeId (next - x)) a = headers a := by
          intro a ha
          have hafter := (hbehind.mem ha).1
          exact Headers.set_of_ne _ _ (by omega)
        have hfreeRest : ∀ a ∈ rest, (headers a).dataType = .freeblock →
            (headers a).flags.alive = false :=
          fun a ha => hfree a (List.mem_cons_of_mem x (List.mem_append_right _ ha))
        obtain ⟨headers', ys, hrec, hloop⟩ := ih next
          (headers.set x (freeId (next - x))) (free ++ [x]) rest
          (hbehind.congr fun a ha => congrArg Header.dataSize (hsame a ha)) (by omega) (by omega)
          fun a ha => by
            rw [hsame a ha]
            exact hfreeRest a ha
        have hdeadAll : ∀ a ∈ x :: run, (headers a).flags.alive = false := by
          intro a ha
          rcases List.mem_cons.mp ha with rfl | ha
          · exact halive
          · exact hdead a ha
        obtain ⟨hself, hrec'⟩ :=
          Recovered.free_run hrun hbehind (by omega) hdeadAll hhead hfreeRest hrec
        refine ⟨headers', x :: ys, hrec', ?_⟩
        rw [hloop, List.filter_cons_of_pos, List.append_assoc]
        · rfl
        · rw [hself]
          rfl
      · rw [if_neg halive]
        rw [Bool.not_eq_false] at halive
        have hnotFree : (headers ptr).dataType ≠ .freeblock := by
          intro hfreeblock
          rw [hfree ptr List.mem_cons_self hfreeblock] at halive
          exact absurd halive (by decide)
        generalize hafter : (if (headers ptr).flags.event then headers
          else headers.set ptr (headers ptr).markDead) = after
        have hptr : after ptr =
            if (headers ptr).flags.event then headers ptr else (headers ptr).markDead := by
          rw [← hafter]
          split
          · rfl
          · exact Headers.set_self _ _ _
        have hother : ∀ a, a ≠ ptr → after a = headers a := by
          intro a ha
          rw [← hafter]
          split
          · rfl
          · exact Headers.set_of_ne _ _ ha
        have hsame : after.size ptr = headers.size ptr := by
          rw [Headers.size, hptr]
          split <;> rfl
        have hrestNe : ∀ a ∈ xs, a ≠ ptr := by
          intro a ha
          have hbeyond := (hrest.mem ha).1
          omega
        simp only
        rw [hsame]
        obtain ⟨headers', ys, hrec, hloop⟩ := ih (ptr + headers.size ptr) after free xs
          (hrest.congr fun a ha => congrArg Header.dataSize (hother a (hrestNe a ha)))
          (by omega) (by omega) fun a ha => by
            rw [hother a (hrestNe a ha)]
            exact hfree a (List.mem_cons_of_mem ptr ha)
        obtain ⟨hselfNot, hrec'⟩ := Recovered.unmark hpos hrest hnotFree hptr hother hrec
        refine ⟨headers', ptr :: ys, hrec', ?_⟩
        rw [hloop, List.filter_cons_of_neg (by simpa using hselfNot)]

/-- No two neighbours in the tiling are free. -/
def HeapCluster.Coalesced (hc : HeapCluster) (blocks : List Nat) : Prop :=
  blocks.IsChain fun a b =>
    ¬((hc.headers a).dataType = .freeblock ∧ (hc.headers b).dataType = .freeblock)

/-- `RecoverFromGC` restores the invariant from the tiling. -/
theorem recoverFromGC_spec (hc : HeapCluster)
    (htiles : Tiles hc.headers.size hc.payloadStart blocks hc.payloadEnd)
    (hmax : hc.payloadEnd ≤ hc.payloadStart + HB_MaxSize)
    (hfree : ∀ a ∈ blocks, (hc.headers a).dataType = .freeblock →
      (hc.headers a).flags.alive = false)
    (hevents : ∀ a ∈ hc.events, a ∈ blocks ∧ (hc.headers a).dataType = .cachedblock ∧
      (hc.headers a).flags = eventFlags) :
    ∃ hc' blocks', hc.recoverFromGC = some hc' ∧ WellFormed hc' blocks' ∧
      hc'.Coalesced blocks' ∧ hc'.relabelled = [] ∧
      ∀ a ∈ blocks, (hc.headers a).flags.alive = true → a ∈ blocks' ∧
        hc'.headers a =
          if (hc.headers a).flags.event then hc.headers a else (hc.headers a).markDead := by
  obtain ⟨headers', ys, hrec, hloop⟩ :=
    recoverLoop_spec (hc.payloadEnd + 1) _ _ [] _ htiles hmax
      (by have hle := htiles.le; omega) hfree
  refine ⟨{ hc with
      headers := headers'
      freeList := ys.filter fun a => (headers' a).dataType = .freeblock
      relabelled := [] }, ys, ?_, ⟨hrec.tiles, hmax, ?_, hrec.free_dead, by simp, ?_⟩,
    hrec.apart, rfl, hrec.kept⟩
  · rw [HeapCluster.recoverFromGC, hloop]
    rfl
  · refine List.filter_congr fun a _ => ?_
    rw [Bool.eq_iff_iff, listed_iff]
    simp
  · intro a ha
    obtain ⟨hmem, htype, hflags⟩ := hevents a ha
    obtain ⟨hkept, heq⟩ := hrec.kept a hmem (by rw [hflags]; rfl)
    rw [if_pos (by rw [hflags]; rfl)] at heq
    exact ⟨hkept, (congrArg Header.dataType heq).trans htype,
      (congrArg Header.flags heq).trans hflags⟩

/-- Marking leaves the blocks where they are, and marks no free block. -/
theorem mark_spec (hc : HeapCluster) (alive : List Nat) (a : Nat) :
    ((hc.mark alive).headers a).dataType = (hc.headers a).dataType ∧
      (hc.mark alive).headers.size a = hc.headers.size a ∧
      ((hc.headers a).dataType = .freeblock → (hc.mark alive).headers a = hc.headers a) ∧
      ((hc.headers a).flags = eventFlags → ((hc.mark alive).headers a).flags = eventFlags) := by
  rw [HeapCluster.mark, Headers.size]
  by_cases hmarked : a ∈ alive ∧ (hc.headers a).dataType ≠ .freeblock
  · simp only [if_pos hmarked]
    refine ⟨rfl, rfl, fun hfree => absurd hfree hmarked.2, fun hflags => ?_⟩
    rw [Header.markAlive, hflags]
    rfl
  · simp only [if_neg hmarked]
    exact ⟨trivial, rfl, fun _ => trivial, id⟩

theorem collect_wellFormed (h : WellFormed hc blocks) (alive : List Nat) :
    ∃ hc' blocks', (hc.mark alive).recoverFromGC = some hc' ∧ WellFormed hc' blocks' ∧
      hc'.Coalesced blocks' ∧ hc'.relabelled = [] ∧
      ∀ a ∈ blocks, (a ∈ alive ∨ (hc.headers a).flags.alive = true) →
        (hc.headers a).dataType ≠ .freeblock → a ∈ blocks' ∧
        (hc'.headers a).dataType = (hc.headers a).dataType ∧
        hc'.headers.size a = hc.headers.size a := by
  obtain ⟨hc', blocks', heq, hwf, hapart, hnone, hkept⟩ :=
    recoverFromGC_spec (hc.mark alive)
      (h.tiles.congr fun a _ => (mark_spec hc alive a).2.1) h.payload_le
      (fun a ha hfree => by
        rw [(mark_spec hc alive a).1] at hfree
        rw [(mark_spec hc alive a).2.2.1 hfree]
        exact h.free_dead a ha hfree)
      (fun a ha => by
        obtain ⟨hmem, htype, hflags⟩ := h.events_cached a ha
        exact ⟨hmem, (mark_spec hc alive a).1.trans htype, (mark_spec hc alive a).2.2.2 hflags⟩)
  refine ⟨hc', blocks', heq, hwf, hapart, hnone, fun a ha halive hused => ?_⟩
  have hmarked : ((hc.mark alive).headers a).flags.alive = true := by
    rw [HeapCluster.mark]
    by_cases hin : a ∈ alive
    · simp only [hin, hused, ne_eq, not_false_eq_true, and_self, if_true]
      rfl
    · simp only [hin, false_and, if_false]
      exact halive.resolve_left hin
  obtain ⟨hmem, hheader⟩ := hkept a ha hmarked
  obtain ⟨htype, hsize, -, -⟩ := mark_spec hc alive a
  refine ⟨hmem, ?_, ?_⟩
  · rw [hheader, ← htype]
    split <;> rfl
  · rw [← hsize, Headers.size, Headers.size, hheader]
    split <;> rfl

/-! ### `HeapCluster_Initialize` -/

theorem allocateHeaps_bounds : ∀ {fuel heapFree : Nat} {i : Int} {blockSize : Nat}, 0 < blockSize →
    blockSize ≤ HB_MaxSize → ∀ cluster ∈ allocateHeaps fuel heapFree i blockSize,
      sizeofHeapCluster < cluster.1 ∧ cluster.1 ≤ sizeofHeapBlock * HB_MaxSize ∧
        0 < cluster.2 ∧ cluster.2 ≤ HB_MaxSize := by
  intro fuel
  induction fuel with
  | zero => intro heapFree i blockSize _ _ cluster hmem; exact absurd hmem List.not_mem_nil
  | succ fuel ih =>
    intro heapFree i blockSize hpos hmax cluster hmem
    rw [allocateHeaps] at hmem
    by_cases hmore : heapFree > sizeofHeapCluster
    · rw [if_pos hmore] at hmem
      simp only at hmem
      generalize hblock : (if i > 100 * 1024 * 1024 then HB_MaxSize
        else if i > 10 * 1024 * 1024 then 10 * 1024
        else if i > 1024 * 1024 then 1 * 1024 else blockSize) = blockSize' at hmem
      have hbounds : 0 < blockSize' ∧ blockSize' ≤ HB_MaxSize := by
        rw [← hblock, HB_MaxSize] at *
        split_ifs <;> omega
      rcases List.mem_cons.mp hmem with rfl | hmem
      · have hcluster : sizeofHeapCluster < sizeofHeapBlock * HB_MaxSize := by decide
        rcases Nat.lt_or_ge heapFree (sizeofHeapBlock * HB_MaxSize) with hlast | hfull
        · rw [if_pos hlast]
          exact ⟨hmore, Nat.le_of_lt hlast, hbounds⟩
        · rw [if_neg (by omega)]
          exact ⟨hcluster, Nat.le_refl _, hbounds⟩
      · exact ih hbounds.1 hbounds.2 cluster hmem
    · rw [if_neg hmore] at hmem
      exact absurd hmem List.not_mem_nil

/-- Where the loop of `PrepareForRecovery` goes from `ptr`, and the block size it goes on with -/
def afterRemains (memory : Nat → Remains) (payloadEnd : Nat) : Nat × Nat → Nat × Nat
  | (ptr, blockSize) =>
      if (memory ptr).kept ptr payloadEnd then (ptr + (memory ptr).header.dataSize, blockSize)
      else
        let blockSize := if ptr + blockSize > payloadEnd then payloadEnd - ptr else blockSize
        (ptr + blockSize, blockSize)

/-- What `PrepareForRecovery` comes to and keeps lies in the payload. -/
def RemainsFit (memory : Nat → Remains) (payloadEnd : Nat) (start : Nat × Nat) : Prop :=
  ∀ n ptr blockSize, (afterRemains memory payloadEnd)^[n] start = (ptr, blockSize) →
    ptr < payloadEnd → (memory ptr).kept ptr payloadEnd = true →
    0 < (memory ptr).header.dataSize ∧ ptr + (memory ptr).header.dataSize ≤ payloadEnd

theorem RemainsFit.next {memory : Nat → Remains} {start : Nat × Nat}
    (h : RemainsFit memory stop start) : RemainsFit memory stop (afterRemains memory stop start) :=
  fun n => h (n + 1)

theorem Remains.kept_not_free {r : Remains} {ptr payloadEnd : Nat}
    (h : r.kept ptr payloadEnd = true) : r.header.dataType ≠ .freeblock := by
  intro hfree
  rw [Remains.kept, if_neg (by rw [hfree]; decide), if_neg (by rw [hfree]; decide)] at h
  exact absurd h (by decide)

theorem prepareForRecovery_spec {memory : Nat → Remains} :
    ∀ (fuel ptr blockSize : Nat) (headers : Headers), RemainsFit memory stop (ptr, blockSize) →
      ptr ≤ stop → stop < fuel + ptr → 0 < blockSize → blockSize ≤ HB_MaxSize →
      (∀ a, ptr ≤ a → headers a = (memory a).header) →
      ∃ headers' xs, prepareForRecovery memory stop fuel ptr blockSize headers = some headers' ∧
        Tiles headers'.size ptr xs stop ∧ (∀ a < ptr, headers' a = headers a) ∧
        ∀ a ∈ xs, (headers' a).dataType = .freeblock → (headers' a).flags.alive = false := by
  intro fuel
  induction fuel with
  | zero => intro ptr blockSize headers _ hle hfuel; omega
  | succ fuel ih =>
    intro ptr blockSize headers hfit hle hfuel hpos hmax hmemory
    have hnext := hfit.next
    rw [prepareForRecovery]
    by_cases hmore : ptr < stop
    · rw [if_pos hmore]
      -- one block is written at `ptr`, the rest is as before
      have hstep : ∀ (blockSize' : Nat) (id : Header),
          RemainsFit memory stop (ptr + id.dataSize, blockSize') → 0 < id.dataSize →
          ptr + id.dataSize ≤ stop → 0 < blockSize' → blockSize' ≤ HB_MaxSize →
          (id.dataType = .freeblock → id.flags.alive = false) →
          ∃ headers' xs, prepareForRecovery memory stop fuel (ptr + id.dataSize) blockSize'
              (headers.set ptr id) = some headers' ∧
            Tiles headers'.size ptr xs stop ∧ (∀ a < ptr, headers' a = headers a) ∧
            ∀ a ∈ xs, (headers' a).dataType = .freeblock → (headers' a).flags.alive = false := by
        intro blockSize' id hfit' hid hin hpos' hmax' hdead
        obtain ⟨headers', xs, heq, htiles, hbefore, hfree⟩ :=
          ih (ptr + id.dataSize) blockSize' (headers.set ptr id) hfit' hin (by omega)
            hpos' hmax' fun a ha => by
              rw [Headers.set_of_ne _ _ (by omega)]
              exact hmemory a (by omega)
        have hself : headers' ptr = id := by
          rw [hbefore ptr (by omega), Headers.set_self]
        have hsize : headers'.size ptr = id.dataSize := congrArg Header.dataSize hself
        refine ⟨headers', ptr :: xs, heq, Tiles.cons (by omega) (by rwa [hsize]), ?_, ?_⟩
        · intro a ha
          rw [hbefore a (by omega), Headers.set_of_ne _ _ (by omega)]
        · intro a ha
          rcases List.mem_cons.mp ha with rfl | ha
          · rw [hself]
            exact hdead
          · exact hfree a ha
      by_cases hkept : (memory ptr).kept ptr stop = true
      · rw [if_pos hkept]
        obtain ⟨hsize, hin⟩ := hfit 0 ptr blockSize rfl hmore hkept
        have hheader := hmemory ptr (Nat.le_refl ptr)
        rw [afterRemains, if_pos hkept] at hnext
        rw [← hheader] at hsize hin hnext
        refine hstep blockSize (headers ptr).markAlive hnext hsize hin hpos hmax fun hfree => ?_
        rw [Header.markAlive, hheader] at hfree
        exact absurd hfree (Remains.kept_not_free hkept)
      · rw [if_neg hkept]
        rw [afterRemains, if_neg hkept] at hnext
        simp only at hnext ⊢
        generalize hblock : (if ptr + blockSize > stop then stop - ptr else blockSize) = blockSize'
          at hnext ⊢
        have hbounds : 0 < blockSize' ∧ blockSize' ≤ HB_MaxSize ∧ ptr + blockSize' ≤ stop := by
          rw [← hblock]
          split_ifs <;> omega
        obtain ⟨hpos', hmax', hin⟩ := hbounds
        have hid : (rawId .freeblock {} blockSize').dataSize = blockSize' := rawId_dataSize hmax'
        have hdone := hstep blockSize' (rawId .freeblock {} blockSize')
          (by rwa [hid]) (by rw [hid]; exact hpos') (by rw [hid]; exact hin) hpos' hmax' fun _ => rfl
        rwa [hid] at hdone
    · rw [if_neg hmore]
      obtain rfl : ptr = stop := by omega
      exact ⟨headers, [], rfl, Tiles.nil ptr, fun _ _ => rfl,
        fun a ha => absurd ha List.not_mem_nil⟩

theorem heapCluster_Initialize_spec {memory : Nat → Remains} {payloadStart size blockSize : Nat}
    (hsize : size ≤ sizeofHeapBlock * HB_MaxSize) (hpos : 0 < blockSize)
    (hmax : blockSize ≤ HB_MaxSize)
    (hfit : RemainsFit memory (payloadStart + (size - sizeofHeapCluster) / sizeofHeapBlock)
      (payloadStart, blockSize)) :
    ∃ hc blocks, heapCluster_Initialize memory payloadStart size blockSize = some hc ∧
      WellFormed hc blocks ∧ hc.Coalesced blocks ∧ hc.relabelled = [] := by
  have hle : (size - sizeofHeapCluster) / sizeofHeapBlock ≤ HB_MaxSize := by
    simp only [sizeofHeapCluster, sizeofHeapBlock, HB_MaxSize] at *
    omega
  have hstart := Nat.le_add_right payloadStart ((size - sizeofHeapCluster) / sizeofHeapBlock)
  have hlength := Nat.add_le_add_left hle payloadStart
  generalize hend : payloadStart + (size - sizeofHeapCluster) / sizeofHeapBlock = payloadEnd at *
  obtain ⟨headers, xs, hprepare, htiles, -, hfree⟩ :=
    prepareForRecovery_spec (payloadEnd + 1) payloadStart blockSize
      (fun a => (memory a).header) hfit hstart (by omega) hpos hmax fun _ _ => rfl
  obtain ⟨hc, blocks, hrecover, hwf, hapart, hnone, -⟩ :=
    recoverFromGC_spec ⟨headers, payloadStart, payloadEnd, [], [], []⟩ htiles
      hlength hfree
      fun a ha => absurd ha List.not_mem_nil
  refine ⟨hc, blocks, ?_, hwf, hapart, hnone⟩
  rw [heapCluster_Initialize]
  simp only [hend, hprepare, Option.bind_eq_bind, Option.bind_some]
  exact hrecover

/-! ### Runs -/

def HeapCluster.liveAfter (hc : HeapCluster) (live : List (Nat × Nat)) :
    Op → Option Nat → List (Nat × Nat)
  | .extractBlocks _ _ length, some res => (res, length) :: live
  | .extractBlocks _ _ _, none => live
  | .insertInOrder node size, _ => live.filter fun l => l.1 < node ∨ node + size ≤ l.1
  | .appendNode node, _ => live.filter fun l => l.1 ≠ node
  | .eventCacheCleanup, _ => live
  | .recoverFromGC alive, _ =>
      live.filter fun l => l.1 ∈ alive ∨ (hc.headers l.1).flags.alive = true

/-- A call, with the live allocations beside the cluster -/
def stepLive (s : HeapCluster × List (Nat × Nat)) (op : Op) :
    Option ((HeapCluster × List (Nat × Nat)) × Option Nat) :=
  (s.1.step op).map fun next => ((next.1, s.1.liveAfter s.2 op next.2), next.2)

/-- What the callers keep to: they allocate at least one block, and give back what is
    allocated. -/
def OpOk (s : HeapCluster × List (Nat × Nat)) : Op → Prop
  | .extractBlocks dataType _ length =>
      dataType ≠ .freeblock ∧ dataType ≠ .cachedblock ∧ 1 ≤ length
  | .insertInOrder node size => ∃ front mid back, Allocated s.1 front mid back node size
  | .appendNode node => ∃ front back, Allocated s.1 front [node] back node (s.1.headers.size node)
  | .eventCacheCleanup => True
  | .recoverFromGC _ => True

structure LiveOk (s : HeapCluster × List (Nat × Nat)) (blocks : List Nat) : Prop where
  wellFormed : WellFormed s.1 blocks
  used : ∀ l ∈ s.2, l.1 ∈ blocks ∧ s.1.InUse l.1 ∧ s.1.headers.size l.1 = l.2
  nodup : (s.2.map Prod.fst).Nodup

variable {s : HeapCluster × List (Nat × Nat)}

theorem LiveOk.keep {blocks' : List Nat}
    (h : LiveOk s blocks) (hwf : WellFormed hc' blocks') (p : Nat × Nat → Bool)
    (hkeep : ∀ l ∈ s.2, p l = true → l.1 ∈ blocks' ∧
      (hc'.headers l.1).dataType = (s.1.headers l.1).dataType ∧
      hc'.headers.size l.1 = s.1.headers.size l.1) :
    LiveOk (hc', s.2.filter p) blocks' := by
  refine ⟨hwf, fun l hl => ?_, (List.filter_sublist.map Prod.fst).nodup h.nodup⟩
  obtain ⟨hmem, hp⟩ := List.mem_filter.mp hl
  obtain ⟨_, huse, hsize⟩ := h.used l hmem
  obtain ⟨hin, htype, hsame⟩ := hkeep l hmem hp
  refine ⟨hin, ?_, hsame.trans hsize⟩
  rw [HeapCluster.InUse, htype]
  exact huse

theorem Allocated.blocks_eq {front mid back : List Nat} {node size : Nat}
    (h : WellFormed hc blocks) (hreg : Allocated hc front mid back node size) :
    blocks = front ++ mid ++ back :=
  h.tiles.unique ((hreg.front_tiles.append hreg.region_tiles).append hreg.back_tiles)

theorem LiveOk.collect (h : LiveOk s blocks)
    (alive : List Nat) :
    ∃ s' r, stepLive s (.recoverFromGC alive) = some (s', r) ∧
      ∃ blocks', LiveOk s' blocks' ∧ s'.1.Coalesced blocks' ∧ s'.1.relabelled = [] := by
  obtain ⟨hc', blocks', heq, hwf, hapart, hnone, hkept⟩ := collect_wellFormed h.wellFormed alive
  refine ⟨(hc', s.1.liveAfter s.2 (.recoverFromGC alive) none), none, ?_, blocks',
    h.keep hwf _ fun l hl hstays => ?_, hapart, hnone⟩
  · rw [stepLive, HeapCluster.step, heq]
    rfl
  · obtain ⟨hmem, huse, -⟩ := h.used l hl
    exact hkept l.1 hmem (of_decide_eq_true hstays) huse.1

theorem stepLive_ok (s : HeapCluster × List (Nat × Nat)) (op : Op)
    (h : ∃ blocks, LiveOk s blocks) (hcond : OpOk s op) :
    ∃ s' r, stepLive s op = some (s', r) ∧ ∃ blocks', LiveOk s' blocks' := by
  obtain ⟨blocks, h⟩ := h
  have hkeepAll : ∀ {hc' : HeapCluster}, WellFormed hc' blocks →
      (∀ a ∈ blocks, s.1.InUse a → hc'.headers a = s.1.headers a) →
      LiveOk (hc', s.2) blocks := by
    intro hc' hwf hsame
    have hall := h.keep hwf (fun _ => true) fun l hl _ => by
      obtain ⟨hmem, huse, -⟩ := h.used l hl
      have heq := hsame l.1 hmem huse
      exact ⟨hmem, congrArg Header.dataType heq, congrArg Header.dataSize heq⟩
    rwa [List.filter_true] at hall
  cases op with
  | extractBlocks dataType flags length =>
    obtain ⟨hfree, hcached, hlength⟩ := hcond
    refine ⟨_, _, rfl, ?_⟩
    rcases extractBlocks_spec h.wellFormed dataType flags length hfree hlength with
      ⟨hnone, _⟩ | ⟨blocks', res, hres, hmax, hext⟩
    · rw [hnone]
      exact ⟨blocks, h⟩
    · rw [hres]
      refine ⟨blocks', hext.wellFormed, ?_, ?_⟩
      · intro l hl
        rcases List.mem_cons.mp hl with rfl | hl
        · refine ⟨hext.taken.1, ?_, ?_⟩
          · rw [HeapCluster.InUse, hext.taken.2]
            exact ⟨hfree, hcached⟩
          · rw [Headers.size, hext.taken.2]
            exact rawId_dataSize hmax
        · obtain ⟨hmem, huse, hsize⟩ := h.used l hl
          obtain ⟨_, hin, hsame⟩ := hext.kept l.1 hmem huse
          rw [HeapCluster.InUse, Headers.size, hsame]
          exact ⟨hin, huse, hsize⟩
      · refine List.nodup_cons.mpr ⟨fun hin => ?_, h.nodup⟩
        obtain ⟨l, hl, heq⟩ := List.mem_map.mp hin
        obtain ⟨hmem, huse, -⟩ := h.used l hl
        exact (hext.kept l.1 hmem huse).1 heq
  | insertInOrder node size =>
    obtain ⟨front, mid, back, hreg⟩ := hcond
    obtain rfl := hreg.blocks_eq h.wellFormed
    obtain ⟨blocks', hwf, hkept⟩ := insertInOrder_spec h.wellFormed hreg
    refine ⟨_, _, rfl, blocks', h.keep hwf _ fun l hl hout => ?_⟩
    obtain ⟨hmem, huse, -⟩ := h.used l hl
    obtain ⟨hin, hsame⟩ := hkept l.1 hmem huse (of_decide_eq_true hout)
    exact ⟨hin, congrArg Header.dataType hsame, congrArg Header.dataSize hsame⟩
  | appendNode node =>
    obtain ⟨front, back, hreg⟩ := hcond
    obtain rfl := hreg.blocks_eq h.wellFormed
    have hwf := appendNode_wellFormed h.wellFormed (show node ∈ _ by simp)
      (hreg.not_free node (List.mem_singleton_self node))
    refine ⟨_, _, rfl, _, h.keep hwf _ fun l hl hne => ?_⟩
    have hsame := appendNode_of_ne s.1 (of_decide_eq_true hne)
    exact ⟨(h.used l hl).1, congrArg Header.dataType hsame, congrArg Header.dataSize hsame⟩
  | eventCacheCleanup =>
    exact ⟨_, _, rfl, blocks, hkeepAll (eventCacheCleanup_wellFormed h.wellFormed)
      fun a _ huse => h.wellFormed.cleanup_of_inUse huse⟩
  | recoverFromGC alive =>
    obtain ⟨s', r, heq, blocks', hok, -, -⟩ := h.collect alive
    exact ⟨s', r, heq, blocks', hok⟩

theorem LiveOk.apart (h : LiveOk s blocks) :
    s.2.Pairwise fun x y => x.1 + x.2 ≤ y.1 ∨ y.1 + y.2 ≤ x.1 := by
  have hblocks : ∀ a ∈ blocks, ∀ b ∈ blocks, a < b → a + s.1.headers.size a ≤ b := by
    intro a ha b hb hlt
    obtain ⟨front, back, rfl⟩ := List.append_of_mem ha
    obtain ⟨m, hfront, hrest⟩ := h.wellFormed.tiles.of_append
    obtain ⟨rfl, hpos, hback⟩ := Tiles.cons_iff.mp hrest
    rcases List.mem_append.mp hb with hb | hb
    · have hbefore := hfront.mem hb
      omega
    · rcases List.mem_cons.mp hb with rfl | hb
      · omega
      · exact (hback.mem hb).1
  refine (List.pairwise_map.mp h.nodup).imp_of_mem fun {x y} hx hy hne => ?_
  obtain ⟨hxmem, -, hxsize⟩ := h.used x hx
  obtain ⟨hymem, -, hysize⟩ := h.used y hy
  rcases Nat.lt_or_gt_of_ne hne with hlt | hgt
  · left
    rw [← hxsize]
    exact hblocks x.1 hxmem y.1 hymem hlt
  · right
    rw [← hysize]
    exact hblocks y.1 hymem x.1 hxmem hgt

/-- What the cluster's callers rely on: the payload is tiled by blocks of a 16-bit size, live
    allocations are blocks and do not overlap, and the free list enumerates the free blocks in the
    order of their addresses, without those relabelled since it was built. -/
structure Sound (hc : HeapCluster) (live : List (Nat × Nat)) (blocks : List Nat) : Prop where
  tiled : Tiles hc.headers.size hc.payloadStart blocks hc.payloadEnd
  sized : ∀ a ∈ blocks, 0 < hc.headers.size a ∧ hc.headers.size a < 2 ^ 16
  allocated : ∀ l ∈ live, l.1 ∈ blocks ∧ hc.InUse l.1 ∧ hc.headers.size l.1 = l.2
  apart : live.Pairwise fun x y => x.1 + x.2 ≤ y.1 ∨ y.1 + y.2 ≤ x.1
  ordered : hc.freeList.Pairwise (· < ·)
  enumerated : ∀ a, a ∈ hc.freeList ↔
    a ∈ blocks ∧ (hc.headers a).dataType = .freeblock ∧ a ∉ hc.relabelled

theorem LiveOk.sound (h : LiveOk s blocks) :
    Sound s.1 s.2 blocks := by
  refine ⟨h.wellFormed.tiles, fun a ha => ?_, h.used, h.apart, ?_, fun a => ?_⟩
  · obtain ⟨hpos, hle⟩ := h.wellFormed.size_le ha
    exact ⟨hpos, Nat.lt_succ_of_le hle⟩
  · rw [h.wellFormed.freeList_eq]
    exact h.wellFormed.tiles.sorted.filter _
  · rw [h.wellFormed.freeList_eq, List.mem_filter, listed_iff]

/-- **The cluster over whole runs.**  `HeapCluster_Initialize` succeeds on every cluster of
    `AllocateHeaps`, and the cluster is sound after it and after every run of calls that give back
    what is allocated; `ExtractBlocks` fails only if no block of the free list is large enough, and
    `RecoverFromGC` leaves no two adjacent free blocks, and every free block in the list. -/
theorem runs_keep_cluster_sound (memory : Nat → Remains)
    (payloadStart heapSize size blockSize : Nat)
    (hcluster : (size, blockSize) ∈ allocateHeaps heapSize heapSize 0 1)
    (hremains : RemainsFit memory (payloadStart + (size - sizeofHeapCluster) / sizeofHeapBlock)
      (payloadStart, blockSize)) :
    ∃ hc, heapCluster_Initialize memory payloadStart size blockSize = some hc ∧
      (∃ blocks, Sound hc [] blocks ∧ hc.Coalesced blocks ∧ hc.relabelled = []) ∧
      ∀ ops, Meets stepLive OpOk (hc, []) ops →
        ∃ s rs, run stepLive (hc, []) ops = some (s, rs) ∧
          (∃ blocks, Sound s.1 s.2 blocks) ∧
          (∀ dataType flags length, (s.1.extractBlocks dataType flags length).2 = none →
            ∀ a ∈ s.1.freeList, s.1.headers.size a < length) ∧
          ∀ alive, ∃ s' r, stepLive s (.recoverFromGC alive) = some (s', r) ∧
            ∃ blocks, Sound s'.1 s'.2 blocks ∧ s'.1.Coalesced blocks ∧ s'.1.relabelled = [] := by
  obtain ⟨-, hsize, hpos, hmax⟩ := allocateHeaps_bounds Nat.one_pos (by decide) _ hcluster
  obtain ⟨hc, blocks, hinit, hwf, hapart, hnone⟩ :=
    heapCluster_Initialize_spec hsize hpos hmax hremains
  have hstart : LiveOk (hc, []) blocks :=
    ⟨hwf, fun l hl => absurd hl List.not_mem_nil, List.nodup_nil⟩
  refine ⟨hc, hinit, ⟨blocks, hstart.sound, hapart, hnone⟩, fun ops hmeets => ?_⟩
  obtain ⟨s, rs, hrun, blocks', hok⟩ :=
    run_invariant stepLive stepLive_ok ops (hc, []) ⟨blocks, hstart⟩ hmeets
  refine ⟨s, rs, hrun, ⟨blocks', hok.sound⟩, fun dataType flags length hfail => ?_, fun alive => ?_⟩
  · rw [HeapCluster.extractBlocks] at hfail
    cases hfind : s.1.findBlock flags.event length with
    | none => exact findBlock_none.mp hfind
    | some res =>
      rw [hfind] at hfail
      simp only at hfail
      split_ifs at hfail
  · obtain ⟨s', r, heq, after, hok', hapart', hnone'⟩ := hok.collect alive
    exact ⟨s', r, heq, after, hok'.sound, hapart', hnone'⟩

/-- Memory in which nothing is left to recover -/
def blankMemory : Nat → Remains := fun _ =>
  { header := { dataType := .void, flags := {}, dataSize := 0 }, targetSerialized := false,
    surviveBoot := false, typeOfElement := .void, fReference := 0, sizeOfElement := 0,
    numOfElements := 0 }

/-- A cluster of two blocks is used up, given back, and used again. -/
theorem runs_keep_cluster_sound_two : ∃ hc s rs,
    heapCluster_Initialize blankMemory 0 56 1 = some hc ∧
    run stepLive (hc, []) [.extractBlocks .szarray {} 2, .insertInOrder 0 2,
      .extractBlocks .objectToEvent eventFlags 1, .eventCacheCleanup, .recoverFromGC []] =
        some (s, rs) ∧
    ∃ blocks, Sound s.1 s.2 blocks := by
  obtain ⟨hc, hinit, -, hruns⟩ := runs_keep_cluster_sound blankMemory 0 56 56 1 (by decide)
    fun _ _ _ _ _ hkept => absurd hkept (by simp [Remains.kept, blankMemory])
  have hfirst : ((heapCluster_Initialize blankMemory 0 56 1).map fun hc =>
      let hc := (hc.extractBlocks .szarray {} 2).1
      (hc.payloadStart, hc.payloadEnd, hc.headers 0)) =
        some (0, 2, { dataType := .szarray, flags := {}, dataSize := 2 }) := by decide
  rw [hinit, Option.map_some, Option.some.injEq, Prod.mk.injEq, Prod.mk.injEq] at hfirst
  obtain ⟨hstart, hend, hheader⟩ := hfirst
  have hmeets : Meets stepLive OpOk (hc, []) [.extractBlocks .szarray {} 2, .insertInOrder 0 2,
      .extractBlocks .objectToEvent eventFlags 1, .eventCacheCleanup, .recoverFromGC []] := by
    refine meets_cons stepLive ⟨by decide, by decide, by decide⟩ rfl ⟨⟨[], [0], [], ?_⟩,
      fun _ _ _ => ⟨⟨by decide, by decide, by decide⟩, fun _ _ _ => ⟨trivial, fun _ _ _ =>
        ⟨trivial, fun _ _ _ => trivial⟩⟩⟩⟩
    refine ⟨?_, Tiles.single_iff.mpr ⟨rfl, ?_, ?_⟩, ?_, Nat.two_pos, ?_, ?_⟩
    · rw [hstart]
      exact Tiles.nil 0
    · rw [Headers.size, hheader]
      exact Nat.two_pos
    · rw [Headers.size, hheader]
    · rw [hend]
      exact Tiles.nil 2
    · rw [List.forall_mem_singleton, hheader]
      decide
    · rw [List.forall_mem_singleton, hheader]
      decide
  obtain ⟨s, rs, hrun, hsound, -⟩ := hruns _ hmeets
  exact ⟨hc, s, rs, hinit, hrun, hsound⟩

/-- After `EventCache_Cleanup` a free block is not in the free list, and `ExtractBlocks` fails
    though it is large enough. -/
theorem cleanup_leaves_block_unlisted : ∃ hc s rs,
    heapCluster_Initialize blankMemory 0 56 1 = some hc ∧
    run HeapCluster.step hc [.extractBlocks .objectToEvent eventFlags 2, .appendNode 0,
      .eventCacheCleanup] = some (s, rs) ∧
    Tiles s.headers.size s.payloadStart [0] s.payloadEnd ∧
    (s.headers 0).dataType = .freeblock ∧ 0 ∉ s.freeList ∧
    s.headers.size 0 = 2 ∧ (s.extractBlocks .szarray {} 1).2 = none := by
  have hrun : ((heapCluster_Initialize blankMemory 0 56 1).bind fun hc =>
      (run HeapCluster.step hc [.extractBlocks .objectToEvent eventFlags 2, .appendNode 0,
        .eventCacheCleanup]).map fun q => (q.1.payloadStart, q.1.payloadEnd, q.1.headers 0,
          q.1.freeList, (q.1.extractBlocks .szarray {} 1).2)) =
      some (0, 2, freeId 2, [], none) := by decide
  obtain ⟨hc, hinit, hsteps⟩ := Option.bind_eq_some_iff.mp hrun
  obtain ⟨⟨s, rs⟩, hsteps, hobserved⟩ := Option.map_eq_some_iff.mp hsteps
  simp only [Prod.mk.injEq] at hobserved
  obtain ⟨hstart, hend, hheader, hfree, hfail⟩ := hobserved
  have hsize : s.headers.size 0 = 2 := by
    rw [Headers.size, hheader]
    rfl
  refine ⟨hc, s, rs, hinit, hsteps, ?_, by rw [hheader]; rfl, by simp [hfree], hsize, hfail⟩
  rw [hstart, hend]
  exact Tiles.single_iff.mpr ⟨rfl, by omega, by omega⟩

end TinyClr.Heap
