/-! Memory as the video chip reads it, which changes nothing. -/

namespace Vic20.Video

class VideoMemory (μ : Type) where
  /-- A character code, by processor address. -/
  matrix : μ → UInt16 → UInt8
  /-- A cell's colour nibble, by offset within 1K. -/
  colour : μ → UInt16 → UInt8
  /-- A byte of a character's shape, by processor address. -/
  glyph : μ → UInt16 → UInt8

/-- The processor address of an address of the chip: its lower 8K are the processor's third quarter,
where the character shapes in ROM are, and its upper 8K the processor's first 8K. -/
def processorAddress (address : Nat) : UInt16 :=
  UInt16.ofNat (address % 0x2000 + (if address / 0x2000 % 2 = 0 then 0x8000 else 0))

end Vic20.Video
