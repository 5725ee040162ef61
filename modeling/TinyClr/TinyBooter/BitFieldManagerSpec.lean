import TinyClr.Library.Indexed
import TinyClr.Library.Segments
import TinyClr.TinyBooter.BitFieldManager

/-!
# Where the walk over the block ranges stands right

The walk of `EraseOnSignatureCheckFail` takes the block ranges of the first region, and of each
further region those from the number on that the region before it has of them.  It counts the blocks
of the ranges it passes.  Its addresses are right where this count is the number of the first block
of the region it is in.
-/

namespace TinyClr.TinyBooter

open TinyClr.Library TinyClr.BlockStorage

/-! ### Blocks of a device -/

def RangesTile : Nat → List BlockRange → Nat → Prop
  | a, [], b => a = b
  | a, x :: xs, b => x.startBlock = a ∧ RangesTile (x.endBlock + 1) xs b

def Tiled (gs : List BlockRegionInfo) : Prop := ∀ g ∈ gs, RangesTile 0 g.blockRanges g.numBlocks

def blocks (gs : List BlockRegionInfo) : Nat := (gs.map BlockRegionInfo.numBlocks).sum

/-- The address of a block; blocks are counted over the regions. -/
def blockAt : List BlockRegionInfo → Nat → Option Nat
  | [], _ => none
  | g :: gs, n => if n < g.numBlocks then some (g.blockAddress n) else blockAt gs (n - g.numBlocks)

variable {a b k n first : Nat} {g g' : BlockRegionInfo} {gs : List BlockRegionInfo}
  {xs : List BlockRange}

theorem RangesTile.sum (h : RangesTile a xs b) : a + (xs.map BlockRange.getBlockCount).sum = b := by
  induction xs generalizing a with
  | nil => exact h
  | cons x xs ih =>
    obtain ⟨rfl, hrest⟩ := h
    have hle := x.le
    rw [List.map_cons, List.sum_cons, BlockRange.getBlockCount, ← ih hrest]
    omega

theorem RangesTile.start_le (h : RangesTile a xs b) {x : BlockRange} (hx : x ∈ xs) :
    a ≤ x.startBlock := by
  induction xs generalizing a with
  | nil => cases hx
  | cons y ys ih =>
    obtain ⟨rfl, hrest⟩ := h
    rcases List.mem_cons.mp hx with rfl | hmem
    · exact Nat.le_refl _
    · exact Nat.le_trans (Nat.le_succ_of_le y.le) (ih hrest hmem)

theorem RangesTile.start_pos (h : RangesTile a xs b) (hk : 0 < k) {x : BlockRange}
    (hx : x ∈ xs.drop k) : 0 < x.startBlock := by
  cases xs with
  | nil => simp at hx
  | cons y ys =>
    obtain ⟨k, rfl⟩ := Nat.exists_eq_succ_of_ne_zero (Nat.ne_of_gt hk)
    rw [List.drop_succ_cons] at hx
    exact Nat.lt_of_lt_of_le (Nat.succ_pos _) (h.2.start_le (List.mem_of_mem_drop hx))

theorem blocks_cons : blocks (g :: gs) = g.numBlocks + blocks gs := rfl

theorem blockAt_isSome (h : n < blocks gs) : (blockAt gs n).isSome = true := by
  induction gs generalizing n with
  | nil => exact absurd h (Nat.not_lt_zero n)
  | cons g gs ih =>
    rw [blocks_cons] at h
    rw [blockAt]
    by_cases hn : n < g.numBlocks
    · rw [if_pos hn]
      rfl
    · rw [if_neg hn]
      exact ih (by omega)

/-- A block is one of a region: its number there is what goes beyond the regions before it. -/
theorem blockAt_eq_some_iff :
    blockAt gs n = some a ↔ ∃ r g, gs[r]? = some g ∧ blocks (gs.take r) ≤ n ∧
      n < blocks (gs.take r) + g.numBlocks ∧ a = g.blockAddress (n - blocks (gs.take r)) := by
  induction gs generalizing n a with
  | nil => simp [blockAt]
  | cons g gs ih =>
    rw [blockAt]
    constructor
    · intro h
      by_cases hn : n < g.numBlocks
      · rw [if_pos hn] at h
        refine ⟨0, g, rfl, Nat.zero_le n, ?_, ?_⟩
        · rw [List.take_zero]
          exact Nat.lt_of_lt_of_eq hn (Nat.zero_add _).symm
        · exact (Option.some.inj h).symm
      · rw [if_neg hn] at h
        obtain ⟨r, g', hg', hle, hlt, rfl⟩ := ih.mp h
        refine ⟨r + 1, g', hg', ?_⟩
        rw [List.take_succ_cons, blocks_cons]
        refine ⟨by omega, by omega, ?_⟩
        rw [Nat.sub_sub]
    · rintro ⟨_ | r, g', hg', hle, hlt, rfl⟩
      · obtain rfl := Option.some.inj hg'
        rw [List.take_zero] at hlt ⊢
        exact if_pos (Nat.lt_of_lt_of_eq hlt (Nat.zero_add _))
      · rw [List.take_succ_cons, blocks_cons] at hle hlt ⊢
        rw [if_neg (by omega), ih]
        refine ⟨r, g', hg', by omega, by omega, ?_⟩
        rw [Nat.sub_sub]

theorem block_ext (happart : gs.Pairwise BlockRegionInfo.Apart) {r r' m : Nat} (hg : gs[r]? = some g)
    (hg' : gs[r']? = some g') (hn : n < g.numBlocks) (hm : m < g'.numBlocks)
    (heq : g.blockAddress n = g'.blockAddress m) : r = r' ∧ n = m := by
  have hinside : ∀ (g : BlockRegionInfo) (n : Nat), n < g.numBlocks →
      g.start ≤ g.blockAddress n ∧ g.blockAddress n < g.start + g.size := by
    intro g n hn
    exact ⟨Nat.le_add_right _ _, Nat.add_lt_add_left (Nat.mul_lt_mul_of_pos_right hn g.pos) _⟩
  obtain ⟨hlow, hhigh⟩ := hinside g n hn
  obtain ⟨hlow', hhigh'⟩ := hinside g' m hm
  have hdisjoint : ∀ {g g' : BlockRegionInfo} {a : Nat}, g.Apart g' → g.start ≤ a →
      a < g.start + g.size → g'.start ≤ a → a < g'.start + g'.size → False := by
    rintro g g' a (h | h) h1 h2 h3 h4
    · omega
    · omega
  obtain ⟨hr, rfl⟩ := List.getElem?_eq_some_iff.mp hg
  obtain ⟨hr', rfl⟩ := List.getElem?_eq_some_iff.mp hg'
  rw [← heq] at hlow' hhigh'
  rcases Nat.lt_trichotomy r r' with hlt | rfl | hlt
  · exact (hdisjoint (List.pairwise_iff_getElem.mp happart r r' hr hr' hlt) hlow hhigh hlow'
      hhigh').elim
  · refine ⟨rfl, Nat.eq_of_mul_eq_mul_right gs[r].pos ?_⟩
    exact Nat.add_left_cancel heq
  · exact (hdisjoint (List.pairwise_iff_getElem.mp happart r' r hr' hr hlt) hlow' hhigh' hlow
      hhigh).elim

/-! ### The route of the walk -/

structure Stop where
  first : Nat
  region : BlockRegionInfo
  range : BlockRange

def Stop.count (s : Stop) : Nat := s.range.getBlockCount

/-- The ranges in the order in which the walk comes to them, as far as it reads the tables of the
    regions -/
def route : Nat → List BlockRegionInfo → Nat → List Stop
  | _, [], _ => []
  | first, g :: gs, iRange =>
      if g.blockRanges.drop iRange = [] then []
      else (g.blockRanges.drop iRange).map (Stop.mk first g) ++
        route (first + g.numBlocks) gs g.blockRanges.length

variable {s : Stop}

theorem mem_route (h : s ∈ route first gs k) : ∃ r, gs[r]? = some s.region ∧
    s.first = first + blocks (gs.take r) ∧ s.range ∈ s.region.blockRanges := by
  induction gs generalizing first k with
  | nil => cases h
  | cons g gs ih =>
    rw [route] at h
    split at h
    · cases h
    · rcases List.mem_append.mp h with hmem | hmem
      · obtain ⟨x, hx, rfl⟩ := List.mem_map.mp hmem
        exact ⟨0, rfl, rfl, List.mem_of_mem_drop hx⟩
      · obtain ⟨r, hg, hfirst, hrange⟩ := ih hmem
        refine ⟨r + 1, hg, ?_, hrange⟩
        rw [hfirst, List.take_succ_cons, blocks_cons, Nat.add_assoc]

theorem Stop.count_le (h : s ∈ route first gs k) : s.count ≤ s.region.numBlocks := by
  obtain ⟨-, -, -, hrange⟩ := mem_route h
  have hinside := s.region.inside s.range hrange
  rw [Stop.count, BlockRange.getBlockCount]
  omega

theorem route_start_pos (htile : Tiled gs) (hk : 0 < k) (h : s ∈ route first gs k) :
    0 < s.range.startBlock := by
  induction gs generalizing first k with
  | nil => cases h
  | cons g gs ih =>
    rw [route] at h
    split at h
    · cases h
    · rename_i hdrop
      have hlength : k < g.blockRanges.length := by
        rw [List.drop_eq_nil_iff] at hdrop
        exact Nat.not_le.mp hdrop
      rcases List.mem_append.mp h with hmem | hmem
      · obtain ⟨x, hx, rfl⟩ := List.mem_map.mp hmem
        exact (htile g List.mem_cons_self).start_pos hk hx
      · exact ih (fun g' hg' => htile g' (List.mem_cons_of_mem g hg')) (by omega) hmem

theorem route_sum_le (htile : Tiled gs) :
    ((route first gs k).map Stop.count).sum ≤ blocks gs := by
  induction gs generalizing first k with
  | nil => exact Nat.le_refl 0
  | cons g gs ih =>
    rw [route]
    split
    · exact Nat.zero_le _
    · have hsum := (htile g List.mem_cons_self).sum
      have hsplit : (g.blockRanges.map BlockRange.getBlockCount).sum =
          ((g.blockRanges.take k).map BlockRange.getBlockCount).sum +
            ((g.blockRanges.drop k).map BlockRange.getBlockCount).sum := by
        rw [← List.sum_append, ← List.map_append, List.take_append_drop]
      have hrest : ((route (first + g.numBlocks) gs g.blockRanges.length).map Stop.count).sum ≤
          blocks gs := ih fun g' hg' => htile g' (List.mem_cons_of_mem g hg')
      rw [List.map_append, List.sum_append, List.map_map, blocks_cons,
        show Stop.count ∘ Stop.mk first g = BlockRange.getBlockCount from rfl]
      omega

/-! ### The walk -/

theorem searchRanges_seek (first : Nat) (rest : List Stop) {passed : Nat}
    (hdrop : g.blockRanges.drop k = xs) (hne : xs ≠ []) (hle : passed ≤ b)
    (hint : passed + (xs.map BlockRange.getBlockCount).sum < 2 ^ 31) :
    (∃ k' passed' : Nat, searchRanges b xs k passed = some (k', (passed' : Int), true) ∧
      g.blockRanges.drop k' ≠ [] ∧ passed' ≤ b ∧
      seek Stop.count (xs.map (Stop.mk first g) ++ rest) passed b =
        some ((g.blockRanges.drop k').map (Stop.mk first g) ++ rest, passed')) ∨
    (∃ passed' : Nat, searchRanges b xs k passed =
        some (g.blockRanges.length, (passed' : Int), false) ∧
      passed' ≤ b ∧ passed' = passed + (xs.map BlockRange.getBlockCount).sum ∧
      seek Stop.count (xs.map (Stop.mk first g) ++ rest) passed b =
        seek Stop.count rest passed' b) := by
  induction xs generalizing k passed with
  | nil => exact absurd rfl hne
  | cons x ys ih =>
    rw [List.map_cons, List.sum_cons] at hint
    have hcount : int32 (x.getBlockCount : Int) = x.getBlockCount :=
      int32_eq_self (by omega) (by omega)
    have hnext : int32 ((passed : Int) + x.getBlockCount) = (passed + x.getBlockCount : Nat) := by
      rw [int32_eq_self (by omega) (by omega), Nat.cast_add]
    have hlength : g.blockRanges.length - k = ys.length + 1 := by
      rw [← List.length_drop, hdrop, List.length_cons]
    rw [searchRanges]
    rw [hcount, hnext, List.map_cons, List.cons_append]
    by_cases hfound : b ≤ passed + x.getBlockCount
    · have hcond : (passed : Int) ≤ b ∧ (b : Int) ≤ (passed + x.getBlockCount : Nat) :=
        ⟨Int.ofNat_le.mpr hle, Int.ofNat_le.mpr hfound⟩
      refine Or.inl ⟨k, passed, if_pos hcond, ?_, hle, ?_⟩
      · rw [hdrop]
        exact List.cons_ne_nil x ys
      · rw [hdrop]
        exact seek_of_le hfound
    · have hlt : passed + x.getBlockCount < b := Nat.not_le.mp hfound
      have hseek : ∀ l, seek Stop.count (⟨first, g, x⟩ :: l) passed b =
          seek Stop.count l (passed + x.getBlockCount) b := fun _ => seek_of_lt hlt
      rw [if_neg fun h => hfound (Int.ofNat_le.mp h.2), hseek]
      by_cases hlast : ys = []
      · subst hlast
        refine Or.inr ⟨passed + x.getBlockCount, ?_, Nat.le_of_lt hlt, rfl, rfl⟩
        rw [if_pos rfl, show k + 1 = g.blockRanges.length by simp at hlength; omega]
      · rw [if_neg hlast]
        have hdrop' : g.blockRanges.drop (k + 1) = ys := by
          rw [← List.drop_drop, hdrop, List.drop_one, List.tail_cons]
        rcases ih hdrop' hlast (Nat.le_of_lt hlt) (by omega) with h | ⟨passed', h1, h2, h3, h4⟩
        · exact Or.inl h
        · refine Or.inr ⟨passed', h1, h2, ?_, h4⟩
          rw [h3, List.map_cons, List.sum_cons, Nat.add_assoc]

theorem searchRegions_seek (first : Nat) {w : Walk} {passed : Nat} (hw : w.iAbsBlock = passed)
    (hle : passed ≤ b)
    (hint : passed + ((route first gs w.iRange).map Stop.count).sum < 2 ^ 31) :
    (seek Stop.count (route first gs w.iRange) passed b = none ∧
      ∀ w' address, searchRegions b gs w ≠ some (w', some address)) ∨
    ∃ s ps passed' r w', seek Stop.count (route first gs w.iRange) passed b =
        some (s :: ps, passed') ∧
      searchRegions b gs w = some (w', some (s.region.blockAddress (b - passed'))) ∧
      w'.iAbsBlock = (passed' : Nat) ∧ w'.iRegion = w.iRegion + r ∧
      route (first + blocks (gs.take r)) (gs.drop r) w'.iRange = s :: ps := by
  induction gs generalizing first w passed with
  | nil => exact Or.inl ⟨rfl, fun _ _ h => nomatch h⟩
  | cons g gs ih =>
    rw [searchRegions]
    generalize hdrop : g.blockRanges.drop w.iRange = xs
    by_cases hne : xs = []
    · subst hne
      rw [route, if_pos hdrop]
      exact Or.inl ⟨rfl, fun _ _ h => nomatch h⟩
    · rw [route, hdrop, if_neg hne] at hint ⊢
      rw [List.map_append, List.sum_append, List.map_map,
        show Stop.count ∘ Stop.mk first g = BlockRange.getBlockCount from rfl] at hint
      rw [hw]
      rcases searchRanges_seek first (route (first + g.numBlocks) gs g.blockRanges.length) hdrop hne
        hle (by omega) with ⟨k', passed', hsearch, hne', hle', hseek⟩ |
          ⟨passed', hsearch, hle', rfl, hseek⟩
      · obtain ⟨x, ys, hx⟩ := List.exists_cons_of_ne_nil hne'
        rw [hsearch, hseek, hx]
        refine Or.inr ⟨⟨first, g, x⟩, _, passed', 0, ⟨w.iRegion, k', passed'⟩, rfl, ?_, rfl, rfl, ?_⟩
        · dsimp only
          rw [← Nat.cast_sub hle', Int.toNat_natCast]
        · dsimp only
          rw [List.take_zero, List.drop_zero, route, hx, if_neg (List.cons_ne_nil x ys)]
          rfl
      · rw [hsearch, hseek]
        dsimp only
        by_cases hlast : gs = []
        · subst hlast
          rw [if_pos rfl]
          exact Or.inl ⟨rfl, fun _ _ h => by simp at h⟩
        · rw [if_neg hlast]
          rcases @ih (first + g.numBlocks) ⟨w.iRegion + 1, g.blockRanges.length, _⟩ _ rfl hle'
            (by dsimp only; omega) with h | ⟨s, ps, passed', r, w', h1, h2, h3, h4, h5⟩
          · exact Or.inl h
          · refine Or.inr ⟨s, ps, passed', r + 1, w', h1, h2, h3, ?_, ?_⟩
            · rw [h4]
              exact Nat.add_right_comm _ _ _
            · rw [List.take_succ_cons, blocks_cons, List.drop_succ_cons, ← Nat.add_assoc]
              exact h5

variable {dev : BlockStorageDevice} {w : Walk} {l : List Stop} {passed : Nat}

def StandsAt (dev : BlockStorageDevice) (w : Walk) (l : List Stop) (passed : Nat) : Prop :=
  route (blocks (dev.regions.take w.iRegion)) (dev.regions.drop w.iRegion) w.iRange = l ∧
    w.iAbsBlock = passed

theorem standsAt_start : StandsAt dev ⟨0, 0, 0⟩ (route 0 dev.regions 0) 0 := ⟨rfl, rfl⟩

/-- The walk to a block: it comes to an address where there is a stop for it. -/
theorem StandsAt.search (h : StandsAt dev w l passed) (hle : passed ≤ b)
    (hint : passed + (l.map Stop.count).sum < 2 ^ 31) :
    (seek Stop.count l passed b = none ∧
      ∀ w' address, search dev w b ≠ some (w', some address)) ∨
    ∃ s ps passed' w', seek Stop.count l passed b = some (s :: ps, passed') ∧
      search dev w b = some (w', some (s.region.blockAddress (b - passed'))) ∧
      StandsAt dev w' (s :: ps) passed' := by
  obtain ⟨rfl, hw⟩ := h
  rcases searchRegions_seek (blocks (dev.regions.take w.iRegion)) hw hle hint with
    h | ⟨s, ps, passed', r, w', hseek, hsearch, habs, hregion, hroute⟩
  · exact Or.inl h
  · refine Or.inr ⟨s, ps, passed', w', hseek, hsearch, ?_, habs⟩
    rw [hregion, ← List.drop_drop, ← hroute, List.take_add, blocks, blocks, blocks, List.map_append,
      List.sum_append]

/-- The address that is erased for a block, when the walk to it starts at the front -/
def walked (dev : BlockStorageDevice) (b : Nat) : Option Nat :=
  (seek Stop.count (route 0 dev.regions 0) 0 b).bind fun r =>
    r.1.head?.map fun s => s.region.blockAddress (b - r.2)

/-- The block is one of a stop on the route before which as many blocks have been passed as the
    regions before its own have.  The first block of the stop is not one of them, if it is not the
    first stop; the first block behind it is, where another region begins there. -/
def CountsRight (dev : BlockStorageDevice) (b : Nat) : Prop :=
  ∃ pre s ps, route 0 dev.regions 0 = pre ++ s :: ps ∧ (pre.map Stop.count).sum = s.first ∧
    (pre = [] ∨ s.first < b) ∧ b ≤ s.first + s.count ∧
    (b < s.first + s.region.numBlocks ∨
      blockAt dev.regions b = some (s.region.start + s.region.size))

theorem walked_eq_some_iff {address : Nat} : walked dev b = some address ↔
    ∃ pre s ps, route 0 dev.regions 0 = pre ++ s :: ps ∧
      (pre = [] ∨ (pre.map Stop.count).sum < b) ∧ b ≤ (pre.map Stop.count).sum + s.count ∧
      address = s.region.blockAddress (b - (pre.map Stop.count).sum) := by
  rw [walked]
  constructor
  · intro h
    obtain ⟨⟨l, passed⟩, hseek, haddress⟩ := Option.bind_eq_some_iff.mp h
    cases l with
    | nil => cases haddress
    | cons s ps =>
      obtain ⟨pre, hroute, hpassed, hpre, hle⟩ := seek_eq_some_iff.mp hseek
      rw [Nat.zero_add] at hpassed
      subst hpassed
      exact ⟨pre, s, ps, hroute, hpre, hle, (Option.some.inj haddress).symm⟩
  · rintro ⟨pre, s, ps, hroute, hpre, hle, rfl⟩
    rw [seek_eq_some_iff.mpr ⟨pre, hroute, (Nat.zero_add _).symm, hpre, hle⟩]
    rfl

theorem first_of_full (htile : Tiled dev.regions) {pre ps : List Stop}
    (hroute : route 0 dev.regions 0 = pre ++ s :: ps) (hfull : s.region.numBlocks ≤ s.count) :
    pre = [] ∧ s.first = 0 := by
  obtain ⟨r, hg, -, hrange⟩ := mem_route (hroute ▸ List.mem_append_right pre List.mem_cons_self)
  have hstart : s.range.startBlock = 0 := by
    have hinside := s.region.inside s.range hrange
    have hle := s.range.le
    rw [Stop.count, BlockRange.getBlockCount] at hfull
    omega
  cases hregions : dev.regions with
  | nil =>
    rw [hregions] at hroute
    cases pre <;> cases hroute
  | cons g gs =>
    rw [hregions] at hroute htile
    rw [route, List.drop_zero] at hroute
    split at hroute
    · cases pre <;> cases hroute
    · rename_i hne
      obtain ⟨x, xs, hxs⟩ := List.exists_cons_of_ne_nil hne
      rw [hxs, List.map_cons, List.cons_append] at hroute
      cases pre with
      | nil =>
        obtain ⟨rfl, -⟩ := List.cons.inj hroute
        exact ⟨rfl, rfl⟩
      | cons p pre =>
        have hrest := (List.cons.inj hroute).2
        have hmem : s ∈ xs.map (Stop.mk 0 g) ++ route (0 + g.numBlocks) gs (x :: xs).length :=
          hrest ▸ List.mem_append_right pre List.mem_cons_self
        rcases List.mem_append.mp hmem with h | h
        · obtain ⟨y, hy, rfl⟩ := List.mem_map.mp h
          have hpos := (htile g List.mem_cons_self).start_pos Nat.one_pos
            (by rw [hxs]; exact hy)
          exact absurd hstart (Nat.ne_of_gt hpos)
        · have hpos := route_start_pos (fun g' hg' => htile g' (List.mem_cons_of_mem g hg'))
            (Nat.succ_pos _) h
          exact absurd hstart (Nat.ne_of_gt hpos)

/-- The walk erases a block itself exactly when it counts right for it. -/
theorem walked_eq_blockAt_iff (htile : Tiled dev.regions) (hb : b < blocks dev.regions) :
    walked dev b = blockAt dev.regions b ↔ CountsRight dev b := by
  obtain ⟨address, haddress⟩ := Option.isSome_iff_exists.mp (blockAt_isSome hb)
  rw [haddress, walked_eq_some_iff]
  constructor
  · rintro ⟨pre, s, ps, hroute, hpre, hle, rfl⟩
    refine ⟨pre, s, ps, hroute, ?_⟩
    have hmem : s ∈ route 0 dev.regions 0 :=
      hroute ▸ List.mem_append_right pre List.mem_cons_self
    obtain ⟨r, hg, hfirst, -⟩ := mem_route hmem
    rw [Nat.zero_add] at hfirst
    obtain ⟨r', g', hg', hlow, hhigh, heq⟩ := blockAt_eq_some_iff.mp haddress
    by_cases hin : b - (pre.map Stop.count).sum < s.region.numBlocks
    · obtain ⟨rfl, hsame⟩ := block_ext dev.apart hg hg' hin (by omega) heq
      have hlt : pre = [] ∨ (pre.map Stop.count).sum ≤ b := hpre.imp_right Nat.le_of_lt
      have hpassed : (pre.map Stop.count).sum = s.first := by
        rcases hlt with rfl | hlt
        · rw [List.map_nil, List.sum_nil] at hsame ⊢
          omega
        · omega
      rw [hpassed] at hpre hle
      refine ⟨hpassed, hpre, hle, Or.inl ?_⟩
      rw [hfirst, Option.some.inj (hg.symm.trans hg')]
      exact hhigh
    · obtain ⟨rfl, hzero⟩ := first_of_full htile hroute (by omega)
      rw [List.map_nil, List.sum_nil] at hin hle haddress
      have hcount := Stop.count_le hmem
      refine ⟨hzero.symm, Or.inl rfl, by omega, Or.inr ?_⟩
      rw [haddress, show b - 0 = s.region.numBlocks by omega]
      rfl
  · rintro ⟨pre, s, ps, hroute, hpassed, hpre, hle, hend⟩
    refine ⟨pre, s, ps, hroute, ?_⟩
    rw [hpassed]
    refine ⟨hpre, hle, ?_⟩
    have hmem : s ∈ route 0 dev.regions 0 :=
      hroute ▸ List.mem_append_right pre List.mem_cons_self
    obtain ⟨r, hg, hfirst, -⟩ := mem_route hmem
    rw [Nat.zero_add] at hfirst
    have hlow : s.first ≤ b := by
      rcases hpre with rfl | hlt
      · rw [← hpassed]
        exact Nat.zero_le b
      · exact Nat.le_of_lt hlt
    by_cases hin : b < s.first + s.region.numBlocks
    · have hown : blockAt dev.regions b = some (s.region.blockAddress (b - s.first)) := by
        rw [blockAt_eq_some_iff]
        exact ⟨r, s.region, hg, hfirst ▸ hlow, hfirst ▸ hin, by rw [hfirst]⟩
      exact Option.some.inj (haddress.symm.trans hown)
    · have hnext := hend.resolve_left hin
      have hcount := Stop.count_le hmem
      rw [Option.some.inj (haddress.symm.trans hnext), BlockRegionInfo.blockAddress,
        show b - s.first = s.region.numBlocks by omega]
      rfl

end TinyClr.TinyBooter
