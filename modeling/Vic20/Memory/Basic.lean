import Vic20.Memory.Cartridge
import Vic20.Memory.Map
import Vic20.Memory.Roms
import Vic20.Video.Memory
import Vic20.Word

/-! The memories. A cartridge hides the expansion block in its window, but writes go to the block. Where
there is nothing, a read gives the high byte of the address. Colour memory keeps whole bytes, of which
the processor sees the low nibble. -/

namespace Vic20

/-- `block3K` and `blocks` are the expansion blocks that are fitted. Block `i` of `blocks` and
cartridge `i` share a window. -/
structure Memory where
  low : Block 0x400
  high : Block 0x1000
  colours : Block 0x400
  block3K : Option (Block 0xC00)
  blocks : Vector (Option (Block 0x2000)) 4
  cartridges : Vector (Option (Block cartridgeSize)) 4
  roms : Roms

namespace Memory

def new (roms : Roms) : Memory where
  low := .zero _
  high := .zero _
  colours := .zero _
  block3K := none
  blocks := Vector.replicate 4 none
  cartridges := Vector.replicate 4 none
  roms := roms

/-- What a window shows at an offset. -/
def readWindow (m : Memory) (slot : Fin 4) (offset : Fin cartridgeSize) : Option UInt8 :=
  match m.cartridges.get slot with
  | some c => some (c.read offset)
  | none => (m.blocks.get slot).map (·.read offset)

def read (m : Memory) (address : UInt16) : UInt8 :=
  match Place.ofAddress address with
  | .low i => m.low.read i
  | .block3K i => (m.block3K.map (·.read i)).getD (highByte address)
  | .high i => m.high.read i
  | .window slot i => (m.readWindow slot i).getD (highByte address)
  | .character i => m.roms.character.read i
  | .colour i => m.colours.read i &&& 0x0F
  | .basic i => m.roms.basic.read i
  | .kernal i => m.roms.kernal.read i
  | .open => highByte address

/-- Writes to ROM or to nothing are lost. -/
def write (m : Memory) (address : UInt16) (v : UInt8) : Memory :=
  match Place.ofAddress address with
  | .low i => { m with low := m.low.write i v }
  | .block3K i => { m with block3K := m.block3K.map (·.write i v) }
  | .high i => { m with high := m.high.write i v }
  | .window slot i =>
    { m with blocks := ⟨m.blocks.toArray.modify slot.val (·.map (·.write i v)), by simp⟩ }
  | .colour i => { m with colours := m.colours.write i v }
  | .character _ | .basic _ | .kernal _ | .open => m

/-- The sizes of the expansion blocks. -/
def blockSizes : List Nat := [0x0C00, 0x2000, 0x2000, 0x2000, 0x2000]

/-- Whether an expansion block is fitted. -/
def hasBlock (m : Memory) : Nat → Bool
  | 0 => m.block3K.isSome
  | n + 1 => (m.blocks[n]?.join).isSome

/-- Fits an expansion block, filled with zeros, or removes one. -/
def setBlock (m : Memory) (n : Nat) (fitted : Bool) : Memory :=
  match n with
  | 0 => { m with block3K := if fitted then some (.zero _) else none }
  | n + 1 => { m with blocks := m.blocks.setIfInBounds n (if fitted then some (.zero _) else none) }

def insert (m : Memory) (c : Cartridge) : Memory :=
  { m with cartridges := m.cartridges.set c.slot.val (some c.image) }

def removeCartridges (m : Memory) : Memory := { m with cartridges := Vector.replicate 4 none }

def hasCartridge (m : Memory) (slot : Nat) : Bool := (m.cartridges[slot]?.join).isSome

open Video

/-- The video chip sees the built-in memories and the character ROM only. -/
instance : VideoMemory Memory where
  matrix m address :=
    if address < 0x400 then m.low.readWrapped address.toNat else m.high.readWrapped address.toNat
  colour m offset := m.colours.readWrapped offset.toNat
  glyph m address :=
    if address < 0x1000 then m.low.readWrapped address.toNat
    else if address < 0x2000 then m.high.readWrapped address.toNat
    else m.roms.character.readWrapped address.toNat

end Memory
end Vic20
