import TimingCharts.Style
import TimingCharts.Ticks

/-!
# Images

The figure that is drawn, the format of the image that holds it, and the bytes of an image
file. The bytes hold a blank canvas of the right format and size.
-/

namespace TimingCharts

/-- A series as it is drawn: the points that the scale admits. -/
structure Figure.Line where
  name : String
  style : Style
  points : List (Float × Float)

/-- What is drawn between the axes. -/
structure Figure where
  xRange : Range
  yRange : Range
  /-- The x-axis with marks of its own, if it has any. -/
  xAxis? : Option Axis
  lines : List Figure.Line

namespace Image

inductive Format where
  | png
  | jpeg
  | bmp
  deriving DecidableEq, Repr

/-- The format that a file name extension asks for, in any case. -/
def Format.ofExtension? (extension : List Char) : Option Format :=
  let lower := extension.map Char.toLower
  if lower = "png".toList then some .png
  else if lower = "jpg".toList ∨ lower = "jpeg".toList then some .jpeg
  else if lower = "bmp".toList then some .bmp
  else none

def Format.fits (format : Format) (width height : UInt32) : Bool :=
  width != 0 && height != 0 &&
    match format with
    | .jpeg => width ≤ 0xFFFF && height ≤ 0xFFFF
    | _ => true

end Image

structure Image where
  format : Image.Format
  width : UInt32
  height : UInt32
  figure : Figure

end TimingCharts
