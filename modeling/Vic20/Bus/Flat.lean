import Vic20.Bus.Basic
import Vic20.Memory.Block

/-! A bus that is 64K of memory and nothing else. -/

namespace Vic20

structure Flat where
  memory : Block 0x10000

namespace Flat

def empty : Flat := ⟨Block.zero 0x10000⟩

def get (bus : Flat) (address : UInt16) : UInt8 := bus.memory.read ⟨address.toNat, address.toNat_lt⟩

def put (bus : Flat) (address : UInt16) (v : UInt8) : Flat :=
  { bus with memory := bus.memory.write ⟨address.toNat, address.toNat_lt⟩ v }

instance : Bus Flat where
  read bus address := (bus.get address, bus)
  write := put

end Flat
end Vic20
