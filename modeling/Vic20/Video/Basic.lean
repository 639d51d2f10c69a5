import Vic20.Video.Beam
import Vic20.Video.Palette

/-! The state of the video chip. Geometry and colours are worked out as registers are written and kept
beside them. -/

namespace Vic20

namespace Video

def charWidth : Int := 8
def maxColumns : Nat := 32

/-- Where the character area lies in the picture, and where its contents lie in memory. The left and
top edge can lie outside the picture. -/
structure Geometry where
  columns : Nat := 0
  rows : Nat := 23
  charHeight : Nat := 8
  areaHeight : Nat := 0
  left : Int := 0
  right : Int := 0
  top : Int := 0
  matrix : UInt16 := 0
  glyphs : UInt16 := 0
  deriving DecidableEq, Repr

/-- The colours set by registers. `invert` is combined with the shapes of characters. -/
structure Ink where
  background : Colour := black
  border : Colour := black
  auxiliary : Colour := black
  invert : UInt8 := 0
  deriving DecidableEq, Repr

/-- Four pixels. -/
structure Group where
  p0 : Colour := black
  p1 : Colour := black
  p2 : Colour := black
  p3 : Colour := black
  deriving DecidableEq, Repr

/-- Progress along a line: whether it is all border, where its text is in memory, the current column,
the line of the cells drawn, whether the next group fetches a cell, and the current cell's halves. -/
structure TextLine where
  border : Bool := false
  address : UInt16 := 0
  column : Nat := 0
  cellLine : Nat := 0
  fetch : Bool := false
  high : Group := {}
  low : Group := {}
  deriving DecidableEq, Repr

abbrev Picture := Vector Colour (pictureWidth * pictureHeight)

end Video

open Video

structure Vic where
  registers : Vector UInt8 16
  geometry : Geometry
  ink : Ink
  beam : Beam
  text : TextLine
  frameDone : Bool
  picture : Picture

namespace Vic

/-- A chip as it is switched on, with a black picture. -/
def new : Vic where
  registers := Vector.replicate 16 0
  geometry := {}
  ink := {}
  beam := .start
  text := {}
  frameDone := false
  picture := Vector.replicate _ black

/-- Resets registers, geometry and beam. The right edge, the height of the character area, the border
and the background stay as they are until their registers change, and the picture until it is drawn.
Of the text line the border, the column and the row of the cells are reset; a line of the picture sets
the rest. -/
def reset (vic : Vic) : Vic :=
  { vic with
    registers := Vector.replicate 16 0
    geometry := { areaHeight := vic.geometry.areaHeight, right := vic.geometry.right }
    ink := { background := vic.ink.background, border := vic.ink.border }
    beam := .start
    text := { vic.text with border := false, column := 0, cellLine := 0 }
    frameDone := false }

/-- Whether a frame was completed since this was last asked. -/
def takeFrameDone (vic : Vic) : Bool × Vic := (vic.frameDone, { vic with frameDone := false })

def pixel (vic : Vic) (x y : Nat) : Colour := vic.picture.getD (y * pictureWidth + x) black

/-- A row of the picture. -/
def scanline (vic : Vic) (y : Nat) : List Colour :=
  (List.range pictureWidth).map (vic.pixel · y)

end Vic
end Vic20
