import Vic20.Error
import Vic20.Memory.Block

/-! The three ROM images, of exact sizes. -/

namespace Vic20

/-- Images as they are supplied. -/
structure RomImages where
  kernal : Array UInt8
  basic : Array UInt8
  character : Array UInt8

structure Roms where
  kernal : Block 0x2000
  basic : Block 0x2000
  character : Block 0x1000

namespace RomImages

/-- An image of the size expected. -/
def sized (name : String) (expected : Nat) (image : Array UInt8) : Except Error (Block expected) :=
  if h : image.size = expected then .ok ⟨image, h⟩ else .error (.romSize name expected image.size)

/-- Checks the sizes of all images. -/
def validate (images : RomImages) : Except Error Roms := do
  let kernal ← sized "KERNAL" 0x2000 images.kernal
  let basic ← sized "BASIC" 0x2000 images.basic
  let character ← sized "character" 0x1000 images.character
  return { kernal, basic, character }

end RomImages
end Vic20
