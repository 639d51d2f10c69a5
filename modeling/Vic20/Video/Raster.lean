import Vic20.Video.Basic
import Vic20.Video.Memory

/-! Drawing. Each cycle the beam moves on and four pixels are drawn: border, or half of a character
cell. A cell is fetched when its first half is due, and its two halves follow the beam. -/

namespace Vic20.Vic

open Video

/-- The lines of the picture above and below the character area are border. -/
def outsideRows (g : Geometry) (y : Nat) : Bool := (y : Int) < g.top || g.top + g.areaHeight ≤ (y : Int)

/-- Prepares a line of the picture: whether it is border, and if not, which line of which row of
characters it shows. A character area that begins left of the picture begins at a later column. -/
def startLine (g : Geometry) (t : TextLine) (y : Nat) : TextLine :=
  if outsideRows g y then { t with border := true }
  else
    let below := ((y : Int) - g.top).toNat
    { t with
      border := false
      column := if g.left < 0 then (-g.left).toNat / 8 else 0
      cellLine := below % g.charHeight
      address := g.matrix + UInt16.ofNat (below / g.charHeight * g.columns)
      fetch := true }

/-- Moves the beam on, starting a line or ending the frame. -/
def advance (vic : Vic) : Vic :=
  let beam := vic.beam.next
  if beam.cycle.val = 0 then
    if beam.line.val = 0 then
      { vic with beam, text := { vic.text with border := false }, frameDone := true }
    else if beam.inPictureLine then
      { vic with beam, text := startLine vic.geometry vic.text beam.y }
    else { vic with beam }
  else { vic with beam }

/-- The group under the beam is border. -/
def drawsBorder (vic : Vic) : Bool :=
  vic.text.border || (vic.beam.x : Int) < vic.geometry.left || vic.geometry.right ≤ (vic.beam.x : Int)

/-- The group under the beam fetches a cell. -/
def fetches (vic : Vic) : Bool := vic.beam.inPicture && !vic.drawsBorder && vic.text.fetch

/-- The address of the current cell's character code. -/
def matrixAddress (vic : Vic) : UInt16 := vic.text.address + UInt16.ofNat vic.text.column

def colourAddress (vic : Vic) : UInt16 := vic.matrixAddress &&& 0x3FF

/-- The address of the current line of a character's shape. -/
def glyphAddress (vic : Vic) (code : UInt8) : UInt16 :=
  processorAddress
    (vic.geometry.glyphs.toNat + code.toNat * vic.geometry.charHeight + vic.text.cellLine)

/-- The colours for the four pairs of bits, each two pixels wide, as the two halves of a cell. -/
def multicolour (ink : Ink) (foreground : Colour) (bits : UInt8) : Group × Group :=
  let slot (shift : UInt8) : Colour :=
    match (bits >>> shift &&& 3).toNat with
    | 0 => ink.background
    | 1 => ink.border
    | 2 => foreground
    | _ => ink.auxiliary
  (⟨slot 6, slot 6, slot 4, slot 4⟩, ⟨slot 2, slot 2, slot 0, slot 0⟩)

/-- The colours for the eight bits, as the two halves of a cell. -/
def hires (ink : Ink) (foreground : Colour) (bits : UInt8) : Group × Group :=
  let bits := bits ^^^ ink.invert
  let slot (shift : UInt8) : Colour :=
    if bits >>> shift &&& 1 == 0 then ink.background else foreground
  (⟨slot 7, slot 6, slot 5, slot 4⟩, ⟨slot 3, slot 2, slot 1, slot 0⟩)

variable {μ : Type} [VideoMemory μ]

/-- The two halves of the current cell, as memory holds it. -/
def cell (vic : Vic) (memory : μ) : Group × Group :=
  let code := VideoMemory.matrix memory vic.matrixAddress
  let bits := VideoMemory.glyph memory (vic.glyphAddress code)
  let colour := VideoMemory.colour memory vic.colourAddress
  if colour &&& 0x08 != 0 then multicolour vic.ink (lowColour colour) bits
  else hires vic.ink (lowColour colour) bits

/-- Draws four pixels under the beam. -/
def plot (vic : Vic) (g : Group) : Vic :=
  let h := vic.beam.offset_add_three_lt
  let o := vic.beam.offset
  { vic with picture :=
      (((vic.picture.set o g.p0 (by omega)).set (o + 1) g.p1 (by omega)).set (o + 2) g.p2
        (by omega)).set (o + 3) g.p3 h }

/-- The beam is in the first half of a cell. -/
def inFirstHalf (vic : Vic) : Bool := (vic.geometry.left + vic.beam.x) % 8 < 4

def drawGroup (vic : Vic) (memory : μ) : Vic :=
  if vic.drawsBorder then
    let c := vic.ink.border
    vic.plot ⟨c, c, c, c⟩
  else
    let text := if vic.text.fetch then
        let (high, low) := vic.cell memory
        { vic.text with fetch := false, high, low }
      else vic.text
    if vic.inFirstHalf then
      { vic with text }.plot text.high
    else
      { vic with text := { text with column := text.column + 1, fetch := true } }.plot text.low

/-- Draws what is under the beam. -/
def draw (vic : Vic) (memory : μ) : Vic :=
  if vic.beam.inPicture then vic.drawGroup memory else vic

/-- Advances by processor cycles. -/
def tick (vic : Vic) (memory : μ) : Nat → Vic
  | 0 => vic
  | n + 1 => tick (vic.advance.draw memory) memory n

end Vic20.Vic
