/-! The memory map. Each address is a place in one of the memories, or is none's; what is at $9000 to
$93FF is told by the board. -/

namespace Vic20

/-- A place in memory: which memory, and the offset in it. Windows hold a cartridge or an expansion
block of 8K. -/
inductive Place where
  | low (offset : Fin 0x400)
  | block3K (offset : Fin 0xC00)
  | high (offset : Fin 0x1000)
  | window (slot : Fin 4) (offset : Fin 0x2000)
  | character (offset : Fin 0x1000)
  | colour (offset : Fin 0x400)
  | basic (offset : Fin 0x2000)
  | kernal (offset : Fin 0x2000)
  | open
  deriving DecidableEq, Repr

namespace Place

/-- The windows at $2000, $4000, $6000 and $A000. -/
def firstSlot : Fin 4 := ⟨0, by decide⟩
def secondSlot : Fin 4 := ⟨1, by decide⟩
def thirdSlot : Fin 4 := ⟨2, by decide⟩
def lastSlot : Fin 4 := ⟨3, by decide⟩

@[inline] def ofNat (a : Nat) (h : a < 0x10000) : Place :=
  if _ : a < 0x0400 then .low ⟨a, by omega⟩
  else if _ : a < 0x1000 then .block3K ⟨a - 0x0400, by omega⟩
  else if _ : a < 0x2000 then .high ⟨a - 0x1000, by omega⟩
  else if _ : a < 0x4000 then .window firstSlot ⟨a - 0x2000, by omega⟩
  else if _ : a < 0x6000 then .window secondSlot ⟨a - 0x4000, by omega⟩
  else if _ : a < 0x8000 then .window thirdSlot ⟨a - 0x6000, by omega⟩
  else if _ : a < 0x9000 then .character ⟨a - 0x8000, by omega⟩
  else if _ : a < 0x9400 then .open
  else if _ : a < 0x9800 then .colour ⟨a - 0x9400, by omega⟩
  else if _ : a < 0xA000 then .open
  else if _ : a < 0xC000 then .window lastSlot ⟨a - 0xA000, by omega⟩
  else if _ : a < 0xE000 then .basic ⟨a - 0xC000, by omega⟩
  else .kernal ⟨a - 0xE000, by omega⟩

@[inline] def ofAddress (address : UInt16) : Place := ofNat address.toNat address.toNat_lt

end Place
end Vic20
