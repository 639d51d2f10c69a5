import Vic20.Error
import Vic20.Memory.Block
import Vic20.Memory.Map
import Vic20.Word

/-! Cartridge images: a dump of 4K or 8K for one of the four windows, perhaps behind a load address of two
bytes. Bytes in front are dropped until 4K or 8K are left, and a dump of 4K fills its window twice. -/

namespace Vic20

def cartridgeSize : Nat := 0x2000
def halfCartridgeSize : Nat := 0x1000

/-- A cartridge for a window. -/
structure Cartridge where
  address : UInt16
  slot : Fin 4
  image : Block cartridgeSize

namespace Cartridge

/-- Any address but those of the lower windows stands for the last window. -/
def slotOf (address : UInt16) : Fin 4 :=
  if address = 0x2000 then Place.firstSlot
  else if address = 0x4000 then Place.secondSlot
  else if address = 0x6000 then Place.thirdSlot
  else Place.lastSlot

/-- The dump and the address it is for. Without an address, or where the size shows that there is one,
it is taken from the first two bytes. -/
def split (bytes : List UInt8) (address : Option UInt16) : Option (UInt16 × List UInt8) :=
  let headed := bytes.length = halfCartridgeSize + 2 ∨ bytes.length = cartridgeSize + 2
  match address, bytes with
  | some a, bytes =>
    if headed then
      match bytes with
      | low :: high :: body => some (word low high, body)
      | _ => none
    else some (a, bytes)
  | none, low :: high :: body => some (word low high, body)
  | none, _ => none

/-- A window filled with the last `size` bytes of a dump. -/
def fill (body : Array UInt8) (size : Nat) : Block cartridgeSize :=
  Vector.ofFn fun i => body.getD (body.size - size + i.val % size) 0

def parse (bytes : List UInt8) (address : Option UInt16) : Except Error Cartridge :=
  match split bytes address with
  | none => .error (.cartridgeTooShort bytes.length)
  | some (address, body) =>
    let body := body.toArray
    if cartridgeSize ≤ body.size then .ok ⟨address, slotOf address, fill body cartridgeSize⟩
    else if halfCartridgeSize ≤ body.size then .ok ⟨address, slotOf address, fill body halfCartridgeSize⟩
    else .error (.cartridgeTooShort bytes.length)

end Cartridge
end Vic20
