/-! The sixteen colours. Each component of a colour has one of four levels. -/

namespace Vic20.Video

abbrev Colour := Fin 16

def black : Colour := ⟨0, by decide⟩

/-- The levels of red, green and blue. -/
def levels : Vector (Nat × Nat × Nat) 16 := #v[
  (0, 0, 0), (3, 3, 3), (3, 0, 0), (0, 2, 2), (2, 0, 2), (0, 2, 0), (0, 0, 2), (2, 2, 0),
  (2, 1, 0), (3, 2, 0), (3, 2, 2), (0, 3, 3), (3, 0, 3), (0, 3, 0), (0, 0, 3), (3, 3, 0)]

/-- A colour as an opaque 32-bit value, red above green above blue. -/
def Colour.argb (c : Colour) : UInt32 :=
  let (r, g, b) := levels.get c
  UInt32.ofNat (0xFF000000 + r * 0x55 * 0x10000 + g * 0x55 * 0x100 + b * 0x55)

def palette : List UInt32 := (List.finRange 16).map Colour.argb

/-- The colour in the high nibble of a byte. -/
def highColour (v : UInt8) : Colour := Fin.ofNat 16 (v.toNat / 16)

/-- The colour in the low three bits of a byte. -/
def lowColour (v : UInt8) : Colour := Fin.ofNat 16 (v.toNat % 8)

end Vic20.Video
