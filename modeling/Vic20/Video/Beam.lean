/-! The raster beam. A line is 71 cycles of four pixel clocks, a frame is 312 lines. The left part of
each line and the first lines of each frame are blanked; what is left is the picture. -/

namespace Vic20.Video

/-- Frequency of the pixel clock in hertz. The processor runs at a quarter of it. -/
def dotClock : Nat := 4433618

def clocksPerLine : Nat := 284
def linesPerFrame : Nat := 312
def cyclesPerLine : Nat := clocksPerLine / 4
def cyclesPerFrame : Nat := cyclesPerLine * linesPerFrame

/-- Pixel clocks of each line before the picture. -/
def horizontalBlanking : Nat := 63

/-- Lines of each frame before the picture. -/
def verticalBlanking : Nat := 28

/-- The pixel clock of the picture's first column: the blanking up to a whole cycle. -/
def pictureClock : Nat := horizontalBlanking + (4 - horizontalBlanking % 4)

def pictureWidth : Nat := clocksPerLine - pictureClock
def pictureHeight : Nat := linesPerFrame - verticalBlanking

structure Beam where
  line : Fin linesPerFrame
  cycle : Fin cyclesPerLine
  deriving DecidableEq, Repr

namespace Beam

def start : Beam := ⟨⟨0, by decide⟩, ⟨0, by decide⟩⟩

/-- The pixel clock within the line. -/
def clock (b : Beam) : Nat := 4 * b.cycle.val

/-- Cycles since the start of the frame. -/
def position (b : Beam) : Nat := cyclesPerLine * b.line.val + b.cycle.val

/-- The next line. After the last line the first follows. -/
def nextLine (b : Beam) : Beam :=
  if h : b.line.val + 1 < linesPerFrame then ⟨⟨b.line.val + 1, h⟩, ⟨0, by decide⟩⟩ else start

/-- The next cycle. -/
def next (b : Beam) : Beam :=
  if h : b.cycle.val + 1 < cyclesPerLine then { b with cycle := ⟨b.cycle.val + 1, h⟩ } else b.nextLine

/-- The beam is in a line of the picture. -/
def inPictureLine (b : Beam) : Prop := verticalBlanking ≤ b.line.val

/-- The beam is within the picture. -/
def inPicture (b : Beam) : Prop := b.inPictureLine ∧ horizontalBlanking ≤ b.clock

instance (b : Beam) : Decidable b.inPictureLine := inferInstanceAs (Decidable (_ ≤ _))
instance (b : Beam) : Decidable b.inPicture := inferInstanceAs (Decidable (_ ∧ _))

/-- The column and row of the picture under the beam. -/
def x (b : Beam) : Nat := b.clock - pictureClock
def y (b : Beam) : Nat := b.line.val - verticalBlanking

/-- The offset of the four pixels under the beam. -/
def offset (b : Beam) : Nat := b.y * pictureWidth + b.x

theorem pictureWidth_eq : pictureWidth = 220 := rfl
theorem pictureHeight_eq : pictureHeight = 284 := rfl

theorem offset_add_three_lt (b : Beam) : b.offset + 3 < pictureWidth * pictureHeight := by
  have hl : b.line.val < 312 := b.line.isLt
  have hc : b.cycle.val < 71 := b.cycle.isLt
  have hx : b.x = 4 * b.cycle.val - 64 := rfl
  have hy : b.y = b.line.val - 28 := rfl
  rw [offset, pictureWidth_eq, pictureHeight_eq, hx, hy]
  omega

end Beam
end Vic20.Video
