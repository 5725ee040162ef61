import TinyClr.Library.Raster

/-!
# Drawing an image

`Graphics_Driver::DrawImage` of `DeviceCode/pal/graphics/graphics.cpp` with `ClipToVisible` and the
colours of `graphics.h`.  The memory holds 16-bit pixels, `data` is where the first one of a bitmap
lies.  Coordinates and sizes are unbounded: nothing is said of products that do not fit an `int`.
-/

namespace TinyClr.Graphics

open TinyClr.Library (catchUp)

/-- The memory as pixels of 16 bits -/
abbrev Cells := Int → UInt16

structure GfxRect where
  left : Int
  top : Int
  right : Int
  bottom : Int
deriving DecidableEq, Repr

/-- The right column is part of the rectangle. -/
def GfxRect.width (r : GfxRect) : Int := r.right - r.left + 1

def GfxRect.height (r : GfxRect) : Int := r.bottom - r.top + 1

/-- `PAL_GFX_Bitmap`; the right column and the bottom row of `clipping` are not visible. -/
structure GfxBitmap where
  width : Int
  height : Int
  data : Int
  clipping : GfxRect
  transparentColor : UInt32
deriving DecidableEq, Repr

def c_InvalidColor : UInt32 := 0xFF000000

def c_OpacityTransparent : UInt16 := 0

def c_OpacityOpaque : UInt16 := 256

def getWidthInWords (width : Int) : Int := (width * 16 + 31).tdiv 32

/-- Pixels from one row of a bitmap to the next -/
def GfxBitmap.stride (b : GfxBitmap) : Int := getWidthInWords b.width * 2

/-! ### Colours -/

def nativeColorRValue (color : UInt32) : UInt8 := ((color &&& 0xF800) >>> 11).toUInt8

def nativeColorGValue (color : UInt32) : UInt8 := ((color &&& 0x07E0) >>> 5).toUInt8

def nativeColorBValue (color : UInt32) : UInt8 := (color &&& 0x1F).toUInt8

def nativeColorFromRGB (r g b : UInt8) : UInt32 :=
  (r.toUInt32 <<< 11) ||| (g.toUInt32 <<< 5) ||| b.toUInt32

def colorRValue (color : UInt32) : UInt8 := (color &&& 0x0000FF).toUInt8

def colorGValue (color : UInt32) : UInt8 := ((color &&& 0x00FF00) >>> 8).toUInt8

def colorBValue (color : UInt32) : UInt8 := ((color &&& 0xFF0000) >>> 16).toUInt8

def convertColorToNative (color : UInt32) : UInt32 :=
  nativeColorFromRGB (colorRValue color >>> 3) (colorGValue color >>> 2) (colorBValue color >>> 3)

def nativeColorInterpolate (colorTo colorFrom : UInt32) (scalar : UInt16) : UInt32 :=
  let scalar := if c_OpacityOpaque < scalar then c_OpacityOpaque else scalar
  if scalar = c_OpacityOpaque then colorTo
  else if scalar = c_OpacityTransparent then colorFrom
  else
    let rT := (nativeColorRValue colorTo).toUInt32 * scalar.toUInt32
    let gT := (nativeColorGValue colorTo).toUInt32 * scalar.toUInt32
    let bT := (nativeColorBValue colorTo).toUInt32 * scalar.toUInt32
    let invertScalar := c_OpacityOpaque - scalar
    let rF := (nativeColorRValue colorFrom).toUInt32 * invertScalar.toUInt32
    let gF := (nativeColorGValue colorFrom).toUInt32 * invertScalar.toUInt32
    let bF := (nativeColorBValue colorFrom).toUInt32 * invertScalar.toUInt32
    nativeColorFromRGB ((rT + rF) >>> 8).toUInt8 ((gT + gF) >>> 8).toUInt8 ((bT + bF) >>> 8).toUInt8

/-! ### Clipping -/

/-- The arguments that `ClipToVisible` takes by reference -/
structure Window where
  x : Int
  y : Int
  width : Int
  height : Int
  xSrc : Int
  ySrc : Int
deriving DecidableEq, Repr

/-- The part of `ClipToVisible` for a source bitmap -/
def clipToSource (src : GfxBitmap) (win : Window) : Window :=
  let widthSrc := src.width - win.xSrc
  let heightSrc := src.height - win.ySrc
  let width := if win.width = -1 then src.width else win.width
  let height := if win.height = -1 then src.height else win.height
  { win with
    width := if widthSrc < width then widthSrc else width
    height := if heightSrc < height then heightSrc else height }

/-- The part of `ClipToVisible` for the target -/
def clipToTarget (target : GfxBitmap) (win : Window) : Bool × Window :=
  let xEnd := win.x + win.width
  let yEnd := win.y + win.height
  if xEnd < target.clipping.left ∨ target.clipping.right ≤ win.x ∨
      yEnd < target.clipping.top ∨ target.clipping.bottom ≤ win.y then
    (false, { win with width := 0, height := 0 })
  else
    let win :=
      if win.x < target.clipping.left then
        let nDelta := target.clipping.left - win.x
        { win with
          x := win.x + nDelta
          xSrc := win.xSrc + nDelta
          width := win.width - nDelta }
      else win
    let win :=
      if target.clipping.right < xEnd then { win with width := target.clipping.right - win.x }
      else win
    let win :=
      if win.y < target.clipping.top then
        let nDelta := target.clipping.top - win.y
        { win with
          y := win.y + nDelta
          ySrc := win.ySrc + nDelta
          height := win.height - nDelta }
      else win
    let win :=
      if target.clipping.bottom < yEnd then { win with height := target.clipping.bottom - win.y }
      else win
    (!decide (win.width ≤ 0 ∨ win.height ≤ 0), win)

/-- `ClipToVisible`: whether anything is visible, and what is left of the window -/
def clipToVisible (target : GfxBitmap) (pSrc : Option GfxBitmap) (win : Window) : Bool × Window :=
  match pSrc with
  | none => clipToTarget target win
  | some src =>
      if win.xSrc < 0 ∨ win.ySrc < 0 then (false, win)
      else clipToTarget target (clipToSource src win)

/-! ### The copying path -/

/-- `memcpy` of so many pixels -/
def memcpy (cells : Cells) (pd ps : Int) (count : Nat) : Cells :=
  fun a => if pd ≤ a ∧ a < pd + count then cells (ps + (a - pd)) else cells a

structure DrawType where
  transparent : Bool
  translucent : Bool
deriving DecidableEq, Repr

/-- The `switch` on `type` -/
def copyPixel (type : DrawType) (nativeTransparentColor : UInt32) (opacity sourceColor old : UInt16) :
    UInt16 :=
  match type with
  | ⟨false, false⟩ => old
  | ⟨true, false⟩ =>
      if sourceColor.toUInt32 ≠ nativeTransparentColor then sourceColor else old
  | ⟨false, true⟩ =>
      (nativeColorInterpolate sourceColor.toUInt32 old.toUInt32 opacity).toUInt16
  | ⟨true, true⟩ =>
      if sourceColor.toUInt32 ≠ nativeTransparentColor then
        (nativeColorInterpolate sourceColor.toUInt32 old.toUInt32 opacity).toUInt16
      else old

def copyRow (type : DrawType) (nativeTransparentColor : UInt32) (opacity : UInt16) :
    Nat → Int → Int → Cells → Cells
  | 0, _, _, cells => cells
  | n + 1, pd, ps, cells =>
      let painted := copyPixel type nativeTransparentColor opacity (cells ps) (cells pd)
      copyRow type nativeTransparentColor opacity n (pd + 1) (ps + 1)
        (Function.update cells pd painted)

def copyRows (row : Int → Int → Cells → Cells) (strideDst strideSrc : Int) :
    Nat → Int → Int → Cells → Cells
  | 0, _, _, cells => cells
  | n + 1, pd, ps, cells =>
      copyRows row strideDst strideSrc n (pd + strideDst) (ps + strideSrc) (row pd ps cells)

def drawType (bitmapSrc : GfxBitmap) (opacity : UInt16) : DrawType where
  transparent := decide (bitmapSrc.transparentColor ≠ c_InvalidColor)
  translucent := decide (opacity ≠ c_OpacityOpaque)

/-- `DrawImage` for two rectangles of the same size -/
def copyImage (cells : Cells) (bitmapDst : GfxBitmap) (dst : GfxRect) (bitmapSrc : GfxBitmap)
    (src : GfxRect) (opacity : UInt16) : Cells :=
  let (visible, win) := clipToVisible bitmapDst (some bitmapSrc)
    ⟨dst.left, dst.top, dst.width, dst.height, src.left, src.top⟩
  if visible = false then cells
  else
    let ps := bitmapSrc.data + bitmapSrc.stride * win.ySrc + win.xSrc
    let pd := bitmapDst.data + bitmapDst.stride * win.y + win.x
    let type := drawType bitmapSrc opacity
    let nativeTransparentColor :=
      if type.transparent then convertColorToNative bitmapSrc.transparentColor else 0
    let row :=
      if type = ⟨false, false⟩ then fun pd ps cells => memcpy cells pd ps win.width.toNat
      else copyRow type nativeTransparentColor opacity win.width.toNat
    copyRows row bitmapDst.stride bitmapSrc.stride win.height.toNat pd ps cells

/-! ### The stretching path -/

/-- The locals `ps`, `color` and `transparent` of the loop over the columns -/
structure Source where
  ps : Int
  color : UInt16
  transparent : Bool

/-- The comparison that `transparent` is set by -/
def isTransparent (bitmapSrc : GfxBitmap) (color : UInt16) : Bool :=
  let noTransparent := bitmapSrc.transparentColor == c_InvalidColor
  noTransparent == false && color.toUInt32 == convertColorToNative bitmapSrc.transparentColor

/-- `color` and `transparent` as they are set when the pointer moves -/
def load (bitmapSrc : GfxBitmap) (cells : Cells) (ps : Int) : Source :=
  ⟨ps, cells ps, isTransparent bitmapSrc (cells ps)⟩

def stretchPixel (opacity color old : UInt16) : UInt16 :=
  if opacity = c_OpacityOpaque then color
  else (nativeColorInterpolate color.toUInt32 old.toUInt32 opacity).toUInt16

/-- The loop over the columns of a row -/
def stretchRow (bitmapSrc : GfxBitmap) (opacity : UInt16) (sourceWidth dstWidth : Int) :
    Nat → Int → Int → Source → Cells → Cells
  | 0, _, _, _, cells => cells
  | n + 1, pd, xNumerator, source, cells =>
      let cells :=
        if source.transparent = false then
          Function.update cells pd (stretchPixel opacity source.color (cells pd))
        else cells
      -- after the last pixel the pointer may stand behind the rectangle
      let (xNumerator, source) := catchUp dstWidth
        (fun source => load bitmapSrc cells (source.ps + 1)) (xNumerator + sourceWidth) source
      stretchRow bitmapSrc opacity sourceWidth dstWidth n (pd + 1) xNumerator source cells

/-- The loop over the rows; `row` paints the row at the first pointer from the one at the second. -/
def stretchRows (row : Int → Int → Cells → Cells) (strideDst strideSrc : Int)
    (sourceHeight dstHeight : Int) : Nat → Int → Int → Int → Cells → Cells
  | 0, _, _, _, cells => cells
  | n + 1, pd, yNumerator, rowstart, cells =>
      let cells := row pd rowstart cells
      let (yNumerator, rowstart) :=
        catchUp dstHeight (fun rowstart => rowstart + strideSrc) (yNumerator + sourceHeight) rowstart
      stretchRows row strideDst strideSrc sourceHeight dstHeight n (pd + strideDst) yNumerator
        rowstart cells

/-- The locals of the stretching path for one axis -/
structure Axis where
  cropped : Int
  offset : Int
  sourceOffset : Int
  numerator : Int
deriving DecidableEq, Repr

/-- `Clip left` and `Clip right`, which `Clip top` and `Clip bottom` do the same way -/
def clipAxis (start size sourceSize low high : Int) : Axis :=
  let a : Axis := ⟨size, start, 0, 0⟩
  let a :=
    if a.offset < low then
      let delta := low - a.offset
      let numerator := a.numerator + sourceSize * delta
      { cropped := a.cropped - delta
        offset := low
        sourceOffset := numerator.tdiv size
        numerator := numerator.tmod size }
    else a
  if high < a.offset + a.cropped then { a with cropped := high - a.offset } else a

/-- `DrawImage` for rectangles of different sizes -/
def stretchImage (cells : Cells) (bitmapDst : GfxBitmap) (dst : GfxRect) (bitmapSrc : GfxBitmap)
    (src : GfxRect) (opacity : UInt16) : Cells :=
  if src.width ≤ 0 ∨ src.height ≤ 0 then cells
  else
    let ps := bitmapSrc.data + bitmapSrc.stride * src.top + src.left
    let xAxis := clipAxis dst.left dst.width src.width bitmapDst.clipping.left
      bitmapDst.clipping.right
    let yAxis := clipAxis dst.top dst.height src.height bitmapDst.clipping.top
      bitmapDst.clipping.bottom
    let rowstart := ps + bitmapSrc.stride * yAxis.sourceOffset
    if xAxis.cropped ≤ 0 ∨ yAxis.cropped ≤ 0 then cells
    else
      let pd := bitmapDst.data + bitmapDst.stride * yAxis.offset + xAxis.offset
      let row := fun pd rowstart cells =>
        stretchRow bitmapSrc opacity src.width dst.width xAxis.cropped.toNat pd xAxis.numerator
          (load bitmapSrc cells (rowstart + xAxis.sourceOffset)) cells
      stretchRows row bitmapDst.stride bitmapSrc.stride src.height dst.height yAxis.cropped.toNat pd
        yAxis.numerator rowstart cells

def drawImage (cells : Cells) (bitmapDst : GfxBitmap) (dst : GfxRect) (bitmapSrc : GfxBitmap)
    (src : GfxRect) (opacity : UInt16) : Cells :=
  if opacity = c_OpacityTransparent then cells
  else if dst.width = src.width ∧ dst.height = src.height then
    copyImage cells bitmapDst dst bitmapSrc src opacity
  else stretchImage cells bitmapDst dst bitmapSrc src opacity

end TinyClr.Graphics
