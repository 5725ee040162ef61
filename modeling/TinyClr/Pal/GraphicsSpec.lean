import TinyClr.Pal.Graphics

/-!
# Drawing an image is nearest-neighbour sampling

Both paths of `DrawImage` paint the part of the destination rectangle that is visible, each pixel
from the pixel of the source rectangle that it falls on.
-/

namespace TinyClr.Graphics

open TinyClr.Library (Paints PaintsRow catchUp catchUp_next iterate_add_stride)

variable {cells cells' : Cells} {bitmapDst bitmapSrc : GfxBitmap} {dst src clipping : GfxRect}
  {opacity : UInt16}

/-! ### Pixels -/

def GfxBitmap.pixel (b : GfxBitmap) (x y : Int) : Int := b.data + b.stride * y + x

/-- The bitmap has such a pixel. -/
def GfxBitmap.Has (b : GfxBitmap) (x y : Int) : Prop :=
  (0 ≤ x ∧ x < b.width) ∧ 0 ≤ y ∧ y < b.height

def IsPixelVisible (clipping : GfxRect) (x y : Int) : Prop :=
  (clipping.left ≤ x ∧ x < clipping.right) ∧ clipping.top ≤ y ∧ y < clipping.bottom

/-- The clipping rectangle lies in the destination, the source rectangle in the source, both
    rectangles have a size, and the two bitmaps do not share pixels: the methods of `Bitmap` refuse to
    draw a bitmap on itself. -/
structure Drawable (bitmapDst : GfxBitmap) (dst : GfxRect) (bitmapSrc : GfxBitmap) (src : GfxRect) :
    Prop where
  clipping_left : 0 ≤ bitmapDst.clipping.left
  clipping_right : bitmapDst.clipping.right ≤ bitmapDst.width
  clipping_top : 0 ≤ bitmapDst.clipping.top
  clipping_bottom : bitmapDst.clipping.bottom ≤ bitmapDst.height
  source_left : 0 ≤ src.left
  source_right : src.right < bitmapSrc.width
  source_top : 0 ≤ src.top
  source_bottom : src.bottom < bitmapSrc.height
  source_width : 0 < src.width
  source_height : 0 < src.height
  width_pos : 0 < dst.width
  height_pos : 0 < dst.height
  apart : ∀ x y x' y', bitmapDst.Has x y → bitmapSrc.Has x' y' →
    bitmapDst.pixel x y ≠ bitmapSrc.pixel x' y'

theorem GfxBitmap.width_le_stride (b : GfxBitmap) (h : 0 ≤ b.width) : b.width ≤ b.stride := by
  have hwords : getWidthInWords b.width = (b.width * 16 + 31) / 32 :=
    Int.tdiv_eq_ediv_of_nonneg (by omega)
  rw [GfxBitmap.stride, hwords]
  omega

theorem GfxBitmap.pixel_add (b : GfxBitmap) (x y : Int) (i j : Nat) :
    b.pixel (x + i) (y + j) = b.pixel x y + b.stride * j + i := by
  unfold GfxBitmap.pixel
  ring

theorem GfxBitmap.pixel_inj {b : GfxBitmap} {x y x' y' : Int} (h : b.Has x y) (h' : b.Has x' y')
    (heq : b.pixel x y = b.pixel x' y') : x = x' ∧ y = y' := by
  have hstride := b.width_le_stride (by have := h.1; omega)
  obtain ⟨⟨hx, hx'⟩, -⟩ := h
  obtain ⟨⟨hu, hu'⟩, -⟩ := h'
  unfold GfxBitmap.pixel at heq
  rcases lt_trichotomy y y' with hlt | rfl | hlt
  · have : b.stride * (y + 1) ≤ b.stride * y' := mul_le_mul_of_nonneg_left (by omega) (by omega)
    rw [mul_add] at this
    omega
  · exact ⟨by omega, rfl⟩
  · have : b.stride * (y' + 1) ≤ b.stride * y := mul_le_mul_of_nonneg_left (by omega) (by omega)
    rw [mul_add] at this
    omega

/-! ### One pixel -/

/-- What a pixel becomes that a pixel of the source is drawn on -/
def paintPixel (bitmapSrc : GfxBitmap) (opacity color old : UInt16) : UInt16 :=
  if isTransparent bitmapSrc color then old else stretchPixel opacity color old

theorem copyPixel_eq (h : drawType bitmapSrc opacity ≠ ⟨false, false⟩) (color old : UInt16) :
    copyPixel (drawType bitmapSrc opacity)
        (if (drawType bitmapSrc opacity).transparent then
          convertColorToNative bitmapSrc.transparentColor else 0) opacity color old =
      paintPixel bitmapSrc opacity color old := by
  unfold paintPixel isTransparent stretchPixel drawType at *
  by_cases hinvalid : bitmapSrc.transparentColor = c_InvalidColor
  · by_cases hopaque : opacity = c_OpacityOpaque
    · exact absurd (by simp [hinvalid, hopaque]) h
    · simp [hinvalid, hopaque, copyPixel]
  · by_cases hopaque : opacity = c_OpacityOpaque
    · simp [hinvalid, hopaque, copyPixel]
    · simp [hinvalid, hopaque, copyPixel]

theorem paintPixel_plain (h : drawType bitmapSrc opacity = ⟨false, false⟩) (color old : UInt16) :
    paintPixel bitmapSrc opacity color old = color := by
  simp only [drawType, DrawType.mk.injEq, decide_eq_false_iff_not, not_not] at h
  simp [paintPixel, isTransparent, stretchPixel, h.1, h.2]

/-! ### One row -/

/-- A row is painted from the pixels of the source at `rowstart`, the column `i` from `f i` on.
    `S` is where the source lies. -/
def RowPaints (S : Set Int) (color : Int → UInt16) (brush : UInt16 → UInt16 → UInt16)
    (f : Nat → Int) (w : Nat) (row : Int → Int → Cells → Cells) : Prop :=
  ∀ (pd rowstart : Int) (cells : Cells), (∀ a ∈ S, cells a = color a) →
    (∀ i < w, rowstart + f i ∈ S) → (∀ i < w, pd + ((i : Nat) : Int) ∉ S) →
    PaintsRow (fun i => brush (color (rowstart + f i))) pd w cells (row pd rowstart cells)

variable {S : Set Int} {color : Int → UInt16}

theorem memcpy_paints (w : Nat) :
    RowPaints S color (fun c _ => c) (fun i => i) w (fun pd ps cells => memcpy cells pd ps w) := by
  intro pd ps cells hcolor hsource hapart
  constructor
  · intro i hi
    have hinside : pd ≤ pd + (i : Int) ∧ pd + (i : Int) < pd + w := ⟨by omega, by omega⟩
    have hcopied : memcpy cells pd ps w (pd + i) = cells (ps + (pd + i - pd)) := if_pos hinside
    simp only [hcopied, add_sub_cancel_left, hcolor _ (hsource i hi)]
  · intro a ha
    refine if_neg (fun hinside => ?_)
    exact ha (a - pd).toNat (by omega) (by omega)

theorem update_kept {a pd : Int} {c : UInt16} (hcolor : ∀ a ∈ S, cells a = color a) (hpd : pd ∉ S)
    (ha : a ∈ S) : Function.update cells pd c a = color a := by
  rw [Function.update_of_ne (fun heq : a = pd => hpd (heq ▸ ha)), hcolor a ha]

theorem add_succ (a : Int) (i : Nat) : a + ((i + 1 : Nat) : Int) = a + 1 + i := by
  push_cast
  ring

theorem copyRow_paints (type : DrawType) (nativeTransparentColor : UInt32) (opacity : UInt16)
    (w : Nat) :
    RowPaints S color (copyPixel type nativeTransparentColor opacity) (fun i => i) w
      (copyRow type nativeTransparentColor opacity w) := by
  induction w with
  | zero => exact fun _ _ _ _ _ _ => PaintsRow.nil _
  | succ w ih =>
    intro pd ps cells hcolor hsource hapart
    have hps : ps ∈ S := by simpa using hsource 0 (by omega)
    have hpd : pd ∉ S := by simpa using hapart 0 (by omega)
    have hrest := ih (pd + 1) (ps + 1)
      (Function.update cells pd (copyPixel type nativeTransparentColor opacity (cells ps) (cells pd)))
      (fun a ha => update_kept hcolor hpd ha)
      (fun i hi => add_succ ps i ▸ hsource (i + 1) (by omega))
      (fun i hi => add_succ pd i ▸ hapart (i + 1) (by omega))
    rw [copyRow]
    have hpainted : Function.update cells pd
        (copyPixel type nativeTransparentColor opacity (cells ps) (cells pd)) =
          Function.update cells pd
            (copyPixel type nativeTransparentColor opacity (color (ps + (0 : Nat))) (cells pd)) := by
      simp [hcolor ps hps]
    refine PaintsRow.cons hpainted ?_
    simpa only [add_succ] using hrest

theorem load_congr {ps : Int} (h : cells ps = cells' ps) :
    load bitmapSrc cells ps = load bitmapSrc cells' ps := by
  rw [load, load, h]

theorem iterate_load (n : Nat) (ps : Int) :
    (fun source : Source => load bitmapSrc cells (source.ps + 1))^[n] (load bitmapSrc cells ps) =
      load bitmapSrc cells (ps + n) := by
  induction n generalizing ps with
  | zero => simp
  | succ n ih =>
    rw [Function.iterate_succ_apply, add_succ]
    exact ih (ps + 1)

theorem stretchRow_paints {sourceWidth dstWidth : Int} (hwidth : 0 < dstWidth)
    (hsourceWidth : 0 ≤ sourceWidth) (w : Nat) (pd base total : Int)
    (hcolor : ∀ a ∈ S, cells a = color a)
    (hsource : ∀ i < w, base + (total + ((i : Nat) : Int) * sourceWidth) / dstWidth ∈ S)
    (hapart : ∀ i < w, pd + ((i : Nat) : Int) ∉ S) :
    PaintsRow
      (fun i => paintPixel bitmapSrc opacity (color (base + (total + i * sourceWidth) / dstWidth)))
      pd w cells
      (stretchRow bitmapSrc opacity sourceWidth dstWidth w pd (total % dstWidth)
        (load bitmapSrc cells (base + total / dstWidth)) cells) := by
  induction w generalizing pd total cells with
  | zero => exact PaintsRow.nil _
  | succ w ih =>
    have hnext : ∀ i : Nat, total + ((i + 1 : Nat) : Int) * sourceWidth =
        total + sourceWidth + i * sourceWidth := by
      intro i
      push_cast
      ring
    have hps : base + total / dstWidth ∈ S := by simpa using hsource 0 (by omega)
    have hpd : pd ∉ S := by simpa using hapart 0 (by omega)
    have hat : cells (base + total / dstWidth) = color (base + total / dstWidth) := hcolor _ hps
    -- the first pixel is painted
    obtain ⟨painted, hpainted⟩ : ∃ painted, painted = Function.update cells pd
      (paintPixel bitmapSrc opacity (color (base + total / dstWidth)) (cells pd)) := ⟨_, rfl⟩
    have hstep : (if (load bitmapSrc cells (base + total / dstWidth)).transparent = false then
        Function.update cells pd (stretchPixel opacity
          (load bitmapSrc cells (base + total / dstWidth)).color (cells pd)) else cells) =
        painted := by
      rw [hpainted, load, paintPixel, hat]
      cases isTransparent bitmapSrc (color (base + total / dstWidth)) <;> simp
    have hkept : ∀ a ∈ S, painted a = color a := by
      intro a ha
      rw [hpainted]
      exact update_kept hcolor hpd ha
    -- the pointer moves on
    have hsame : load bitmapSrc cells (base + total / dstWidth) =
        load bitmapSrc painted (base + total / dstWidth) :=
      load_congr (by rw [hat, hkept _ hps])
    have hmoved : base + total / dstWidth +
        (((total + sourceWidth) / dstWidth - total / dstWidth).toNat : Int) =
          base + (total + sourceWidth) / dstWidth := by
      have := Int.ediv_le_ediv hwidth (by omega : total ≤ total + sourceWidth)
      omega
    rw [stretchRow, hstep, hsame, catchUp_next hwidth hsourceWidth, iterate_load, hmoved]
    have hfirst : painted = Function.update cells pd (paintPixel bitmapSrc opacity
        (color (base + (total + ((0 : Nat) : Int) * sourceWidth) / dstWidth)) (cells pd)) := by
      simpa using hpainted
    refine PaintsRow.cons hfirst ?_
    simp only [hnext]
    exact ih (pd + 1) (total + sourceWidth) hkept (fun i hi => hnext i ▸ hsource (i + 1) (by omega))
      (fun i hi => add_succ pd i ▸ hapart (i + 1) (by omega))

/-! ### The rows -/

section Rows

variable {brush : UInt16 → UInt16 → UInt16} {f : Nat → Int} {w : Nat}
  {row : Int → Int → Cells → Cells} {strideDst strideSrc : Int}

theorem stride_succ (a stride : Int) (j : Nat) :
    a + stride * ((j + 1 : Nat) : Int) = a + stride + stride * j := by
  push_cast
  ring

theorem copyRows_paint (hrow : RowPaints S color brush f w row) (hw : (w : Int) ≤ strideDst)
    (h : Nat) (pd ps : Int) (hcolor : ∀ a ∈ S, cells a = color a)
    (hsource : ∀ i < w, ∀ j < h, ps + strideSrc * ((j : Nat) : Int) + f i ∈ S)
    (hapart : ∀ i < w, ∀ j < h, pd + strideDst * ((j : Nat) : Int) + ((i : Nat) : Int) ∉ S) :
    Paints (fun i j => brush (color (ps + strideSrc * j + f i))) pd strideDst w h cells
      (copyRows row strideDst strideSrc h pd ps cells) := by
  induction h generalizing pd ps cells with
  | zero => exact Paints.nil _
  | succ h ih =>
    have hapart₀ : ∀ i < w, pd + ((i : Nat) : Int) ∉ S := by
      intro i hi
      simpa using hapart i hi 0 (by omega)
    have hfirst := hrow pd ps cells hcolor
      (fun i hi => by simpa using hsource i hi 0 (by omega)) hapart₀
    have hrest := ih (pd + strideDst) (ps + strideSrc) (hfirst.kept hcolor hapart₀)
      (fun i hi j hj => stride_succ ps strideSrc j ▸ hsource i hi (j + 1) (by omega))
      (fun i hi j hj => stride_succ pd strideDst j ▸ hapart i hi (j + 1) (by omega))
    rw [copyRows]
    refine Paints.cons hw (by simpa using hfirst) ?_
    simpa only [stride_succ] using hrest

theorem stretchRows_paint (hrow : RowPaints S color brush f w row) (hw : (w : Int) ≤ strideDst)
    {sourceHeight dstHeight : Int} (hheight : 0 < dstHeight)
    (hsourceHeight : 0 ≤ sourceHeight) (h : Nat) (pd base total : Int)
    (hcolor : ∀ a ∈ S, cells a = color a)
    (hsource : ∀ i < w, ∀ j < h,
      base + strideSrc * ((total + ((j : Nat) : Int) * sourceHeight) / dstHeight) + f i ∈ S)
    (hapart : ∀ i < w, ∀ j < h, pd + strideDst * ((j : Nat) : Int) + ((i : Nat) : Int) ∉ S) :
    Paints
      (fun i j => brush
        (color (base + strideSrc * ((total + j * sourceHeight) / dstHeight) + f i)))
      pd strideDst w h cells
      (stretchRows row strideDst strideSrc sourceHeight dstHeight h pd (total % dstHeight)
        (base + strideSrc * (total / dstHeight)) cells) := by
  induction h generalizing pd total cells with
  | zero => exact Paints.nil _
  | succ h ih =>
    have hnext : ∀ j : Nat, total + ((j + 1 : Nat) : Int) * sourceHeight =
        total + sourceHeight + j * sourceHeight := by
      intro j
      push_cast
      ring
    have hapart₀ : ∀ i < w, pd + ((i : Nat) : Int) ∉ S := by
      intro i hi
      simpa using hapart i hi 0 (by omega)
    have hfirst := hrow pd (base + strideSrc * (total / dstHeight)) cells hcolor
      (fun i hi => by simpa using hsource i hi 0 (by omega)) hapart₀
    have hmoved : base + strideSrc * (total / dstHeight) +
        strideSrc * (((total + sourceHeight) / dstHeight - total / dstHeight).toNat : Int) =
          base + strideSrc * ((total + sourceHeight) / dstHeight) := by
      have := Int.ediv_le_ediv hheight (by omega : total ≤ total + sourceHeight)
      rw [Int.toNat_of_nonneg (by omega)]
      ring
    have hrest := ih (pd + strideDst) (total + sourceHeight) (hfirst.kept hcolor hapart₀)
      (fun i hi j hj => hnext j ▸ hsource i hi (j + 1) (by omega))
      (fun i hi j hj => stride_succ pd strideDst j ▸ hapart i hi (j + 1) (by omega))
    rw [stretchRows, catchUp_next hheight hsourceHeight, iterate_add_stride, hmoved]
    refine Paints.cons hw (by simpa using hfirst) ?_
    simpa only [hnext] using hrest

end Rows

/-! ### The visible part -/

/-- The columns, or rows, of the destination rectangle that are visible: `count` from `offset` on -/
def IsWindow (start size low high offset : Int) (count : Nat) : Prop :=
  ∀ x, offset ≤ x ∧ x < offset + count ↔ (start ≤ x ∧ x < start + size) ∧ low ≤ x ∧ x < high

def Hidden (dst clipping : GfxRect) : Prop :=
  ∀ i j, 0 ≤ i ∧ i < dst.width → 0 ≤ j ∧ j < dst.height →
    ¬ IsPixelVisible clipping (dst.left + i) (dst.top + j)

variable {size offset cropped : Int}

theorem isWindow_of_bounds {start low high : Int}
    (hoffset : offset = max start low) (hcropped : cropped = min (start + size) high - offset)
    (hpos : 0 < cropped) : IsWindow start size low high offset cropped.toNat := by
  intro x
  omega

theorem clipToSource_eq (hdraw : Drawable bitmapDst dst bitmapSrc src)
    (hwidth : dst.width = src.width) (hheight : dst.height = src.height) :
    clipToSource bitmapSrc ⟨dst.left, dst.top, dst.width, dst.height, src.left, src.top⟩ =
      ⟨dst.left, dst.top, dst.width, dst.height, src.left, src.top⟩ := by
  have hright := hdraw.source_right
  have hbottom := hdraw.source_bottom
  have hw := hdraw.width_pos
  have hh := hdraw.height_pos
  have hfitsWidth : ¬ bitmapSrc.width - src.left < dst.width := by
    rw [hwidth, GfxRect.width]
    omega
  have hfitsHeight : ¬ bitmapSrc.height - src.top < dst.height := by
    rw [hheight, GfxRect.height]
    omega
  have hnotAll : dst.width ≠ -1 := by omega
  have hnotAll' : dst.height ≠ -1 := by omega
  simp [clipToSource, hnotAll, hnotAll', hfitsWidth, hfitsHeight]

theorem clipToTarget_eq {target : GfxBitmap} {x y width height xSrc ySrc : Int}
    (hinside : ¬ (x + width < target.clipping.left ∨ target.clipping.right ≤ x ∨
      y + height < target.clipping.top ∨ target.clipping.bottom ≤ y)) :
    ∃ u v w h, clipToTarget target ⟨x, y, width, height, xSrc, ySrc⟩ =
        (!decide (w ≤ 0 ∨ h ≤ 0), ⟨u, v, w, h, xSrc + (u - x), ySrc + (v - y)⟩) ∧
      u = max x target.clipping.left ∧ w = min (x + width) target.clipping.right - u ∧
      v = max y target.clipping.top ∧ h = min (y + height) target.clipping.bottom - v := by
  refine ⟨_, _, _, _, ?_, rfl, rfl, rfl, rfl⟩
  unfold clipToTarget
  rw [if_neg hinside]
  dsimp only
  split_ifs <;> dsimp only at * <;> simp only [Prod.mk.injEq, Window.mk.injEq] <;>
    refine ⟨?_, by omega, by omega, by omega, by omega, by omega, by omega⟩ <;>
    exact congrArg (! ·) (decide_eq_decide.mpr (by omega))

theorem clipToVisible_cases (hdraw : Drawable bitmapDst dst bitmapSrc src)
    (hwidth : dst.width = src.width) (hheight : dst.height = src.height) :
    (Hidden dst bitmapDst.clipping ∧
      ∃ win, clipToVisible bitmapDst (some bitmapSrc)
        ⟨dst.left, dst.top, dst.width, dst.height, src.left, src.top⟩ = (false, win)) ∨
    ∃ u v w h, clipToVisible bitmapDst (some bitmapSrc)
        ⟨dst.left, dst.top, dst.width, dst.height, src.left, src.top⟩ =
          (true, ⟨u, v, w, h, src.left + (u - dst.left), src.top + (v - dst.top)⟩) ∧ 0 < w ∧
      IsWindow dst.left dst.width bitmapDst.clipping.left bitmapDst.clipping.right u w.toNat ∧
      IsWindow dst.top dst.height bitmapDst.clipping.top bitmapDst.clipping.bottom v h.toNat := by
  have hsource : ¬ (src.left < 0 ∨ src.top < 0) := by
    have hleft := hdraw.source_left
    have htop := hdraw.source_top
    omega
  simp only [clipToVisible, if_neg hsource, clipToSource_eq hdraw hwidth hheight]
  by_cases hinside : dst.left + dst.width < bitmapDst.clipping.left ∨
      bitmapDst.clipping.right ≤ dst.left ∨ dst.top + dst.height < bitmapDst.clipping.top ∨
      bitmapDst.clipping.bottom ≤ dst.top
  · refine Or.inl ⟨?_, ?_⟩
    · intro i j hi hj
      unfold IsPixelVisible
      omega
    · exact ⟨_, if_pos hinside⟩
  · obtain ⟨u, v, w, h, heq, hu, hw, hv, hh⟩ := clipToTarget_eq hinside
    rw [heq]
    by_cases hempty : w ≤ 0 ∨ h ≤ 0
    · refine Or.inl ⟨?_, _, by rw [decide_eq_true hempty]; rfl⟩
      intro i j hi hj
      unfold IsPixelVisible
      omega
    · refine Or.inr ⟨u, v, w, h, by rw [decide_eq_false hempty]; rfl, by omega, ?_, ?_⟩
      · exact isWindow_of_bounds hu hw (by omega)
      · exact isWindow_of_bounds hv hh (by omega)

theorem clipAxis_eq {start size sourceSize low high : Int} (hsourceSize : 0 < sourceSize) :
    ∃ offset cropped, clipAxis start size sourceSize low high =
        ⟨cropped, offset, sourceSize * (offset - start) / size,
          sourceSize * (offset - start) % size⟩ ∧
      offset = max start low ∧ cropped = min (start + size) high - offset := by
  refine ⟨_, _, ?_, rfl, rfl⟩
  unfold clipAxis
  by_cases hlow : start < low
  · have hdelta : 0 ≤ sourceSize * (low - start) := Int.mul_nonneg hsourceSize.le (by omega)
    simp only [if_pos hlow, zero_add, Int.tdiv_eq_ediv_of_nonneg hdelta,
      Int.tmod_eq_emod_of_nonneg hdelta, max_eq_right hlow.le]
    split_ifs <;> simp only [Axis.mk.injEq, and_true] <;> omega
  · simp only [if_neg hlow, max_eq_left (not_lt.mp hlow), sub_self, mul_zero, Int.zero_ediv,
      Int.zero_emod]
    split_ifs <;> simp only [Axis.mk.injEq, and_true] <;> omega

/-! ### Sampling -/

/-- Where the pixel of the source lies that a column and a row of the destination rectangle fall
    on -/
def samplePixel (bitmapSrc : GfxBitmap) (src dst : GfxRect) (i j : Int) : Int :=
  bitmapSrc.pixel (src.left + i * src.width / dst.width) (src.top + j * src.height / dst.height)

/-- Every visible pixel of the rectangle takes the colour of the pixel of the source that it falls
    on, nothing else changes. -/
structure Sampled (bitmapDst : GfxBitmap) (dst : GfxRect) (bitmapSrc : GfxBitmap) (src : GfxRect)
    (opacity : UInt16) (cells cells' : Cells) : Prop where
  drawn : ∀ i j, 0 ≤ i ∧ i < dst.width → 0 ≤ j ∧ j < dst.height →
    IsPixelVisible bitmapDst.clipping (dst.left + i) (dst.top + j) →
    cells' (bitmapDst.pixel (dst.left + i) (dst.top + j)) =
      paintPixel bitmapSrc opacity (cells (samplePixel bitmapSrc src dst i j))
        (cells (bitmapDst.pixel (dst.left + i) (dst.top + j)))
  others : ∀ a, (∀ i j, 0 ≤ i ∧ i < dst.width → 0 ≤ j ∧ j < dst.height →
    IsPixelVisible bitmapDst.clipping (dst.left + i) (dst.top + j) →
      a ≠ bitmapDst.pixel (dst.left + i) (dst.top + j)) → cells' a = cells a

theorem sampled_hidden (hhidden : Hidden dst bitmapDst.clipping) :
    Sampled bitmapDst dst bitmapSrc src opacity cells cells where
  drawn := fun i j hi hj hvisible => absurd hvisible (hhidden i j hi hj)
  others := fun _ _ => rfl

theorem hidden_of_cropped
    (hoffset : offset = max dst.left clipping.left)
    (hcropped : cropped = min (dst.left + dst.width) clipping.right - offset)
    (hnone : cropped ≤ 0) : Hidden dst clipping := by
  intro i j hi hj
  unfold IsPixelVisible
  omega

theorem hidden_of_cropped_rows
    (hoffset : offset = max dst.top clipping.top)
    (hcropped : cropped = min (dst.top + dst.height) clipping.bottom - offset)
    (hnone : cropped ≤ 0) : Hidden dst clipping := by
  intro i j hi hj
  unfold IsPixelVisible
  omega

theorem sampled_of_paints {x y : Int} {w h : Nat}
    (hx : IsWindow dst.left dst.width bitmapDst.clipping.left bitmapDst.clipping.right x w)
    (hy : IsWindow dst.top dst.height bitmapDst.clipping.top bitmapDst.clipping.bottom y h)
    (hpaints : Paints (fun i j => paintPixel bitmapSrc opacity
        (cells (samplePixel bitmapSrc src dst (x - dst.left + i) (y - dst.top + j))))
      (bitmapDst.pixel x y) bitmapDst.stride w h cells cells') :
    Sampled bitmapDst dst bitmapSrc src opacity cells cells' := by
  constructor
  · intro i j hi hj hvisible
    have hcolumn := (hx (dst.left + i)).mpr ⟨⟨by omega, by omega⟩, hvisible.1⟩
    have hrow := (hy (dst.top + j)).mpr ⟨⟨by omega, by omega⟩, hvisible.2⟩
    obtain ⟨c, hc⟩ := Int.eq_ofNat_of_zero_le (by omega : 0 ≤ dst.left + i - x)
    obtain ⟨r, hr⟩ := Int.eq_ofNat_of_zero_le (by omega : 0 ≤ dst.top + j - y)
    have hpixel := hpaints.inside c (by omega) r (by omega)
    rw [← GfxBitmap.pixel_add] at hpixel
    have hxc : x + (c : Int) = dst.left + i := by omega
    have hyr : y + (r : Int) = dst.top + j := by omega
    have hi' : x - dst.left + (c : Int) = i := by omega
    have hj' : y - dst.top + (r : Int) = j := by omega
    rwa [hxc, hyr, hi', hj'] at hpixel
  · intro a ha
    refine hpaints.outside a (fun i hi j hj => ?_)
    obtain ⟨⟨hleft, hleft'⟩, hvisible⟩ := (hx (x + i)).mp ⟨by omega, by omega⟩
    obtain ⟨⟨htop, htop'⟩, hvisible'⟩ := (hy (y + j)).mp ⟨by omega, by omega⟩
    have hcolumn : dst.left + (x + i - dst.left) = x + i := by omega
    have hrow : dst.top + (y + j - dst.top) = y + j := by omega
    have hne := ha (x + i - dst.left) (y + j - dst.top) ⟨by omega, by omega⟩ ⟨by omega, by omega⟩
    rw [hcolumn, hrow] at hne
    rw [← GfxBitmap.pixel_add]
    exact hne ⟨hvisible, hvisible'⟩

theorem Sampled.unique {cells'' : Cells}
    (h : Sampled bitmapDst dst bitmapSrc src opacity cells cells')
    (h' : Sampled bitmapDst dst bitmapSrc src opacity cells cells'') : cells' = cells'' := by
  funext a
  by_cases hdrawn : ∃ i j, (0 ≤ i ∧ i < dst.width) ∧ (0 ≤ j ∧ j < dst.height) ∧
      IsPixelVisible bitmapDst.clipping (dst.left + i) (dst.top + j) ∧
      a = bitmapDst.pixel (dst.left + i) (dst.top + j)
  · obtain ⟨i, j, hi, hj, hvisible, rfl⟩ := hdrawn
    rw [h.drawn i j hi hj hvisible, h'.drawn i j hi hj hvisible]
  · have hother : ∀ i j, 0 ≤ i ∧ i < dst.width → 0 ≤ j ∧ j < dst.height →
        IsPixelVisible bitmapDst.clipping (dst.left + i) (dst.top + j) →
          a ≠ bitmapDst.pixel (dst.left + i) (dst.top + j) :=
      fun i j hi hj hvisible heq => hdrawn ⟨i, j, hi, hj, hvisible, heq⟩
    rw [h.others a hother, h'.others a hother]

/-! ### The two paths -/

def GfxBitmap.pixels (b : GfxBitmap) : Set Int := {a | ∃ x y, b.Has x y ∧ a = b.pixel x y}

theorem sample_range {i sourceSize : Int} (hi : 0 ≤ i ∧ i < size) (hsource : 0 < sourceSize) :
    0 ≤ i * sourceSize / size ∧ i * sourceSize / size < sourceSize := by
  have hsize : 0 < size := by omega
  constructor
  · exact Int.ediv_nonneg (Int.mul_nonneg hi.1 hsource.le) hsize.le
  · refine Int.ediv_lt_of_lt_mul hsize ?_
    rw [mul_comm sourceSize]
    exact mul_lt_mul_of_pos_right hi.2 hsource

theorem samplePixel_mem (hdraw : Drawable bitmapDst dst bitmapSrc src) {i j : Int}
    (hi : 0 ≤ i ∧ i < dst.width) (hj : 0 ≤ j ∧ j < dst.height) :
    samplePixel bitmapSrc src dst i j ∈ bitmapSrc.pixels := by
  have hcolumn := sample_range hi hdraw.source_width
  have hrow := sample_range hj hdraw.source_height
  have hleft := hdraw.source_left
  have hright := hdraw.source_right
  have htop := hdraw.source_top
  have hbottom := hdraw.source_bottom
  unfold GfxRect.width at hcolumn
  unfold GfxRect.height at hrow
  exact ⟨_, _, ⟨⟨by unfold GfxRect.width; omega, by unfold GfxRect.width; omega⟩,
    by unfold GfxRect.height; omega, by unfold GfxRect.height; omega⟩, rfl⟩

section Windows

variable {x y : Int} {w h : Nat} (hdraw : Drawable bitmapDst dst bitmapSrc src)
  (hx : IsWindow dst.left dst.width bitmapDst.clipping.left bitmapDst.clipping.right x w)
  (hy : IsWindow dst.top dst.height bitmapDst.clipping.top bitmapDst.clipping.bottom y h)

include hdraw hx in
theorem window_le_stride (hw : 0 < w) : (w : Int) ≤ bitmapDst.stride := by
  have hfirst := (hx x).mp ⟨by omega, by omega⟩
  have hlast := (hx (x + (w - 1 : Nat))).mp ⟨by omega, by omega⟩
  have hleft := hdraw.clipping_left
  have hright := hdraw.clipping_right
  have := bitmapDst.width_le_stride (by omega)
  omega

include hdraw hx hy in
theorem window_apart : ∀ i < w, ∀ j < h,
    bitmapDst.pixel x y + bitmapDst.stride * ((j : Nat) : Int) + ((i : Nat) : Int) ∉
      bitmapSrc.pixels := by
  rintro i hi j hj ⟨x', y', hhas, heq⟩
  obtain ⟨-, hleft, hright⟩ := (hx (x + i)).mp ⟨by omega, by omega⟩
  obtain ⟨-, htop, hbottom⟩ := (hy (y + j)).mp ⟨by omega, by omega⟩
  rw [← GfxBitmap.pixel_add] at heq
  refine hdraw.apart _ _ _ _ ⟨⟨?_, ?_⟩, ?_, ?_⟩ hhas heq
  · exact le_trans hdraw.clipping_left hleft
  · exact lt_of_lt_of_le hright hdraw.clipping_right
  · exact le_trans hdraw.clipping_top htop
  · exact lt_of_lt_of_le hbottom hdraw.clipping_bottom

include hdraw hx hy in
theorem window_samples : ∀ i < w, ∀ j < h,
    samplePixel bitmapSrc src dst (x - dst.left + ((i : Nat) : Int))
      (y - dst.top + ((j : Nat) : Int)) ∈ bitmapSrc.pixels := by
  intro i hi j hj
  obtain ⟨hcolumn, -⟩ := (hx (x + i)).mp ⟨by omega, by omega⟩
  obtain ⟨hrow, -⟩ := (hy (y + j)).mp ⟨by omega, by omega⟩
  exact samplePixel_mem hdraw ⟨by omega, by omega⟩ ⟨by omega, by omega⟩

end Windows

theorem copyPath_paints (S : Set Int) (color : Int → UInt16) (w : Nat) :
    RowPaints S color (paintPixel bitmapSrc opacity) (fun i => i) w
      (if drawType bitmapSrc opacity = ⟨false, false⟩ then fun pd ps cells => memcpy cells pd ps w
      else copyRow (drawType bitmapSrc opacity)
        (if (drawType bitmapSrc opacity).transparent then
          convertColorToNative bitmapSrc.transparentColor else 0) opacity w) := by
  by_cases htype : drawType bitmapSrc opacity = ⟨false, false⟩
  · have hbrush : paintPixel bitmapSrc opacity = fun c _ => c :=
      funext fun c => funext fun old => paintPixel_plain htype c old
    rw [if_pos htype, hbrush]
    exact memcpy_paints w
  · have hbrush : paintPixel bitmapSrc opacity = copyPixel (drawType bitmapSrc opacity)
        (if (drawType bitmapSrc opacity).transparent then
          convertColorToNative bitmapSrc.transparentColor else 0) opacity :=
      funext fun c => funext fun old => (copyPixel_eq htype c old).symm
    rw [if_neg htype, hbrush]
    exact copyRow_paints _ _ _ w

theorem copyImage_sampled (hdraw : Drawable bitmapDst dst bitmapSrc src)
    (hwidth : dst.width = src.width) (hheight : dst.height = src.height) :
    Sampled bitmapDst dst bitmapSrc src opacity cells
      (copyImage cells bitmapDst dst bitmapSrc src opacity) := by
  rcases clipToVisible_cases hdraw hwidth hheight with
    ⟨hhidden, win, heq⟩ | ⟨u, v, w, h, heq, hpos, hu, hv⟩
  · rw [copyImage, heq]
    exact sampled_hidden hhidden
  · -- equal sizes: a column falls on the column of its own number
    have hsample : ∀ i j : Nat, samplePixel bitmapSrc src dst (u - dst.left + i) (v - dst.top + j) =
        bitmapSrc.data + bitmapSrc.stride * (src.top + (v - dst.top)) +
          (src.left + (u - dst.left)) + bitmapSrc.stride * j + i := by
      intro i j
      rw [samplePixel, ← hwidth, ← hheight, Int.mul_ediv_cancel _ hdraw.width_pos.ne',
        Int.mul_ediv_cancel _ hdraw.height_pos.ne', GfxBitmap.pixel]
      ring
    rw [copyImage, heq]
    refine sampled_of_paints hu hv ?_
    simp only [hsample]
    exact copyRows_paint (copyPath_paints bitmapSrc.pixels cells w.toNat)
      (window_le_stride hdraw hu (by omega)) h.toNat _ _ (fun _ _ => rfl)
      (fun i hi j hj => hsample i j ▸ window_samples hdraw hu hv i hi j hj)
      (window_apart hdraw hu hv)

theorem stretchPath_paints (S : Set Int) (color : Int → UInt16) (w : Nat)
    {sourceWidth dstWidth : Int} (hwidth : 0 < dstWidth) (hsourceWidth : 0 ≤ sourceWidth)
    (total : Int) :
    RowPaints S color (paintPixel bitmapSrc opacity)
      (fun i => (total + i * sourceWidth) / dstWidth) w
      (fun pd rowstart cells => stretchRow bitmapSrc opacity sourceWidth dstWidth w pd
        (total % dstWidth) (load bitmapSrc cells (rowstart + total / dstWidth)) cells) :=
  fun pd rowstart _ hcolor hsource hapart =>
    stretchRow_paints hwidth hsourceWidth w pd rowstart total hcolor hsource hapart

theorem stretchImage_sampled (hdraw : Drawable bitmapDst dst bitmapSrc src) :
    Sampled bitmapDst dst bitmapSrc src opacity cells
      (stretchImage cells bitmapDst dst bitmapSrc src opacity) := by
  have hsource : ¬ (src.width ≤ 0 ∨ src.height ≤ 0) := by
    have hwidth := hdraw.source_width
    have hheight := hdraw.source_height
    omega
  obtain ⟨x, w, hxAxis, hx, hw⟩ := @clipAxis_eq dst.left dst.width src.width
    bitmapDst.clipping.left bitmapDst.clipping.right hdraw.source_width
  obtain ⟨y, h, hyAxis, hy, hh⟩ := @clipAxis_eq dst.top dst.height src.height
    bitmapDst.clipping.top bitmapDst.clipping.bottom hdraw.source_height
  rw [stretchImage, if_neg hsource, hxAxis, hyAxis]
  dsimp only
  by_cases hempty : w ≤ 0 ∨ h ≤ 0
  · rw [if_pos hempty]
    refine sampled_hidden ?_
    rcases hempty with hempty | hempty
    · exact hidden_of_cropped hx hw hempty
    · exact hidden_of_cropped_rows hy hh hempty
  · rw [if_neg hempty]
    have hcolumns := isWindow_of_bounds hx hw (by omega)
    have hrows := isWindow_of_bounds hy hh (by omega)
    -- the accumulators start with the columns and rows that are clipped
    have hsample : ∀ i j : Nat, samplePixel bitmapSrc src dst (x - dst.left + i) (y - dst.top + j) =
        bitmapSrc.data + bitmapSrc.stride * src.top + src.left +
          bitmapSrc.stride * ((src.height * (y - dst.top) + j * src.height) / dst.height) +
          (src.width * (x - dst.left) + i * src.width) / dst.width := by
      intro i j
      have hcolumn : (x - dst.left + (i : Int)) * src.width =
          src.width * (x - dst.left) + i * src.width := by ring
      have hrow : (y - dst.top + (j : Int)) * src.height =
          src.height * (y - dst.top) + j * src.height := by ring
      rw [samplePixel, hcolumn, hrow, GfxBitmap.pixel]
      ring
    refine sampled_of_paints hcolumns hrows ?_
    simp only [hsample]
    exact stretchRows_paint
      (stretchPath_paints bitmapSrc.pixels cells w.toNat hdraw.width_pos hdraw.source_width.le _)
      (window_le_stride hdraw hcolumns (by omega)) hdraw.height_pos hdraw.source_height.le h.toNat _
      _ _ (fun _ _ => rfl)
      (fun i hi j hj => hsample i j ▸ window_samples hdraw hcolumns hrows i hi j hj)
      (window_apart hdraw hcolumns hrows)

theorem drawImage_sampled (hdraw : Drawable bitmapDst dst bitmapSrc src)
    (hopacity : opacity ≠ c_OpacityTransparent) :
    Sampled bitmapDst dst bitmapSrc src opacity cells
      (drawImage cells bitmapDst dst bitmapSrc src opacity) := by
  rw [drawImage, if_neg hopacity]
  by_cases hsame : dst.width = src.width ∧ dst.height = src.height
  · rw [if_pos hsame]
    exact copyImage_sampled hdraw hsame.1 hsame.2
  · rw [if_neg hsame]
    exact stretchImage_sampled hdraw

/-! ### Clipping -/

/-- One clipping rectangle lies in another. -/
structure Within (small large : GfxRect) : Prop where
  left : large.left ≤ small.left
  top : large.top ≤ small.top
  right : small.right ≤ large.right
  bottom : small.bottom ≤ large.bottom

theorem Within.visible (h : Within clipping bitmapDst.clipping) {x y : Int}
    (hvisible : IsPixelVisible clipping x y) : IsPixelVisible bitmapDst.clipping x y := by
  obtain ⟨⟨hx, hx'⟩, hy, hy'⟩ := hvisible
  exact ⟨⟨le_trans h.left hx, lt_of_lt_of_le hx' h.right⟩, le_trans h.top hy,
    lt_of_lt_of_le hy' h.bottom⟩

theorem Drawable.within (hdraw : Drawable bitmapDst dst bitmapSrc src)
    (h : Within clipping bitmapDst.clipping) :
    Drawable { bitmapDst with clipping := clipping } dst bitmapSrc src where
  clipping_left := le_trans hdraw.clipping_left h.left
  clipping_right := le_trans h.right hdraw.clipping_right
  clipping_top := le_trans hdraw.clipping_top h.top
  clipping_bottom := le_trans h.bottom hdraw.clipping_bottom
  source_left := hdraw.source_left
  source_right := hdraw.source_right
  source_top := hdraw.source_top
  source_bottom := hdraw.source_bottom
  source_width := hdraw.source_width
  source_height := hdraw.source_height
  width_pos := hdraw.width_pos
  height_pos := hdraw.height_pos
  apart := hdraw.apart

theorem Drawable.has_visible (hdraw : Drawable bitmapDst dst bitmapSrc src) {x y : Int}
    (hvisible : IsPixelVisible bitmapDst.clipping x y) : bitmapDst.Has x y := by
  obtain ⟨⟨hx, hx'⟩, hy, hy'⟩ := hvisible
  exact ⟨⟨le_trans hdraw.clipping_left hx, lt_of_lt_of_le hx' hdraw.clipping_right⟩,
    le_trans hdraw.clipping_top hy, lt_of_lt_of_le hy' hdraw.clipping_bottom⟩

theorem Sampled.outside (hdraw : Drawable bitmapDst dst bitmapSrc src)
    (h : Sampled bitmapDst dst bitmapSrc src opacity cells cells') {x y : Int}
    (hvisible : IsPixelVisible bitmapDst.clipping x y)
    (houtside : ∀ i j, 0 ≤ i ∧ i < dst.width → 0 ≤ j ∧ j < dst.height →
      ¬ (x = dst.left + i ∧ y = dst.top + j)) :
    cells' (bitmapDst.pixel x y) = cells (bitmapDst.pixel x y) :=
  h.others _ fun i j hi hj hother heq =>
    houtside i j hi hj
      (GfxBitmap.pixel_inj (hdraw.has_visible hvisible) (hdraw.has_visible hother) heq)

theorem sampled_within (hdraw : Drawable bitmapDst dst bitmapSrc src)
    (hwithin : Within clipping bitmapDst.clipping) {small : Cells}
    (h : Sampled bitmapDst dst bitmapSrc src opacity cells cells')
    (hsmall : Sampled { bitmapDst with clipping := clipping } dst bitmapSrc src opacity cells small)
    {x y : Int} (hvisible : IsPixelVisible clipping x y) :
    small (bitmapDst.pixel x y) = cells' (bitmapDst.pixel x y) := by
  have hlarge := hwithin.visible hvisible
  by_cases hinside : ∃ i j, (0 ≤ i ∧ i < dst.width) ∧ (0 ≤ j ∧ j < dst.height) ∧
      (x = dst.left + i ∧ y = dst.top + j)
  · obtain ⟨i, j, hi, hj, rfl, rfl⟩ := hinside
    exact (hsmall.drawn i j hi hj hvisible).trans (h.drawn i j hi hj hlarge).symm
  · have houtside : ∀ i j, 0 ≤ i ∧ i < dst.width → 0 ≤ j ∧ j < dst.height →
        ¬ (x = dst.left + i ∧ y = dst.top + j) :=
      fun i j hi hj heq => hinside ⟨i, j, hi, hj, heq⟩
    exact ((hsmall.outside (hdraw.within hwithin) hvisible houtside).trans
      (h.outside hdraw hlarge houtside).symm)

theorem paintPixel_opaque (color old : UInt16) :
    paintPixel bitmapSrc c_OpacityOpaque color old =
      if isTransparent bitmapSrc color then old else color := by
  simp [paintPixel, stretchPixel]

/-- **Drawing an image samples it.**  A visible pixel of the destination rectangle takes the colour
    of the pixel of the source that it falls on, unless that is transparent, and nothing else
    changes; the two paths agree on rectangles of the same size, and a smaller clipping rectangle
    leaves what it covers of the image. -/
theorem drawImage_nearest (hdraw : Drawable bitmapDst dst bitmapSrc src) :
    let drawn := drawImage cells bitmapDst dst bitmapSrc src c_OpacityOpaque
    (∀ i j, 0 ≤ i ∧ i < dst.width → 0 ≤ j ∧ j < dst.height →
      IsPixelVisible bitmapDst.clipping (dst.left + i) (dst.top + j) →
      drawn (bitmapDst.pixel (dst.left + i) (dst.top + j)) =
        if isTransparent bitmapSrc (cells (samplePixel bitmapSrc src dst i j)) then
          cells (bitmapDst.pixel (dst.left + i) (dst.top + j))
        else cells (samplePixel bitmapSrc src dst i j)) ∧
    (∀ a, (∀ i j, 0 ≤ i ∧ i < dst.width → 0 ≤ j ∧ j < dst.height →
      IsPixelVisible bitmapDst.clipping (dst.left + i) (dst.top + j) →
        a ≠ bitmapDst.pixel (dst.left + i) (dst.top + j)) → drawn a = cells a) ∧
    (dst.width = src.width → dst.height = src.height →
      copyImage cells bitmapDst dst bitmapSrc src c_OpacityOpaque =
        stretchImage cells bitmapDst dst bitmapSrc src c_OpacityOpaque) ∧
    ∀ clipping, Within clipping bitmapDst.clipping →
      let clipped := drawImage cells { bitmapDst with clipping := clipping } dst bitmapSrc src
        c_OpacityOpaque
      (∀ x y, IsPixelVisible clipping x y →
        clipped (bitmapDst.pixel x y) = drawn (bitmapDst.pixel x y)) ∧
      ∀ a, (∀ x y, IsPixelVisible clipping x y → a ≠ bitmapDst.pixel x y) →
        clipped a = cells a := by
  have hopacity : c_OpacityOpaque ≠ c_OpacityTransparent := by decide
  have hsampled := @drawImage_sampled cells _ _ _ _ _ hdraw hopacity
  refine ⟨?_, hsampled.others, ?_, ?_⟩
  · intro i j hi hj hvisible
    rw [hsampled.drawn i j hi hj hvisible, paintPixel_opaque]
  · intro hwidth hheight
    exact (copyImage_sampled hdraw hwidth hheight).unique (stretchImage_sampled hdraw)
  · intro clipping hwithin
    have hclipped := @drawImage_sampled cells _ _ _ _ _ (hdraw.within hwithin) hopacity
    refine ⟨fun x y => sampled_within hdraw hwithin hsampled hclipped, ?_⟩
    intro a ha
    exact hclipped.others a fun i j _ _ hvisible => ha _ _ hvisible

/-- A row of so many pixels -/
def rowBitmap (width data : Int) : GfxBitmap where
  width := width
  height := 1
  data := data
  clipping := ⟨0, 0, width, 1⟩
  transparentColor := c_InvalidColor

theorem rowBitmap_drawable : Drawable (rowBitmap 4 0) ⟨0, 0, 3, 0⟩ (rowBitmap 2 8) ⟨0, 0, 1, 0⟩ where
  clipping_left := by decide
  clipping_right := by decide
  clipping_top := by decide
  clipping_bottom := by decide
  source_left := by decide
  source_right := by decide
  source_top := by decide
  source_bottom := by decide
  source_width := by decide
  source_height := by decide
  width_pos := by decide
  height_pos := by decide
  apart := by
    have hstride : (rowBitmap 4 0).stride = 4 ∧ (rowBitmap 2 8).stride = 2 := by decide
    rintro x y x' y' ⟨hx, hy⟩ ⟨hx', hy'⟩
    simp only [rowBitmap] at hx hy hx' hy'
    simp only [GfxBitmap.pixel, hstride.1, hstride.2]
    simp only [rowBitmap]
    omega

/-- Two pixels stretched to four: the third one takes the colour of the second. -/
theorem drawImage_nearest_doubled :
    drawImage (fun a => if a = 9 then 5 else 0) (rowBitmap 4 0) ⟨0, 0, 3, 0⟩ (rowBitmap 2 8)
      ⟨0, 0, 1, 0⟩ c_OpacityOpaque 2 = 5 := by
  have hpixel := (@drawImage_nearest (fun a => if a = 9 then 5 else 0) _ _ _ _
    rowBitmap_drawable).1 2 0 (by decide) (by decide)
    ⟨by decide, by decide⟩
  exact hpixel

end TinyClr.Graphics
