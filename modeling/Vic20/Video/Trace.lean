import Vic20.Video.Raster

/-! The reads of memory that drawing makes. -/

namespace Vic20.Video

inductive Fetch where
  | matrix (address : UInt16)
  | glyph (address : UInt16)
  | colour (address : UInt16)
  deriving DecidableEq, Repr

end Vic20.Video

namespace Vic20.Vic

open Video

variable {μ : Type} [VideoMemory μ]

/-- The reads made to draw what is under the beam, in order. -/
def fetchesOf (vic : Vic) (memory : μ) : List Fetch :=
  if vic.fetches then
    [.matrix vic.matrixAddress,
      .glyph (vic.glyphAddress (VideoMemory.matrix memory vic.matrixAddress)),
      .colour vic.colourAddress]
  else []

/-- Advances by cycles, collecting the reads made. -/
def tickTraced (vic : Vic) (memory : μ) : Nat → Array Fetch → Array Fetch × Vic
  | 0, seen => (seen, vic)
  | n + 1, seen =>
    let vic := vic.advance
    tickTraced (vic.draw memory) memory n (seen ++ vic.fetchesOf memory)

end Vic20.Vic
