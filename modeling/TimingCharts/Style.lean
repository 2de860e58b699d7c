/-!
# Series styles

Colour, marker and line of one series.
-/

namespace TimingCharts

structure Colour where
  red : UInt8
  green : UInt8
  blue : UInt8
  deriving DecidableEq, Repr

/-- The colours that series take by number. -/
def Colour.palette : Vector Colour 8 :=
  #v[⟨0x1F, 0x77, 0xB4⟩, ⟨0xFF, 0x7F, 0x0E⟩, ⟨0x2C, 0xA0, 0x2C⟩, ⟨0xD6, 0x27, 0x28⟩,
    ⟨0x94, 0x67, 0xBD⟩, ⟨0x8C, 0x56, 0x4B⟩, ⟨0xE3, 0x77, 0xC2⟩, ⟨0x7F, 0x7F, 0x7F⟩]

inductive Marker where
  | circle
  | square
  | triangle
  | cross
  deriving DecidableEq, Repr

inductive Stroke where
  | solid
  | dashed
  deriving DecidableEq, Repr

structure Style where
  colour : Colour
  marker : Marker
  stroke : Stroke := .solid
  width : UInt32 := 2
  deriving DecidableEq, Repr

/-- What a single stroke or filled shape looks like. -/
structure Shape where
  colour : Colour
  opacity : Float
  filled : Bool
  width : UInt32

namespace Style

/-- A solid line in the colour numbered `index`, counting round the palette. -/
def ofPalette (index : Nat) (marker : Marker) : Style where
  colour := Colour.palette.get (Fin.ofNat 8 index)
  marker := marker

def dashed (style : Style) : Style := { style with stroke := .dashed }

def withWidth (style : Style) (width : UInt32) : Style := { style with width }

def line (style : Style) : Shape := ⟨style.colour, 1, false, style.width⟩

def fill (style : Style) : Shape := ⟨style.colour, 1, true, 1⟩

end Style

end TimingCharts
