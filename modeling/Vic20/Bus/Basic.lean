/-! A sixteen-bit memory bus as operations on a state. A read may change the state, because a
register can react to being read. -/

namespace Vic20

class Bus (σ : Type) where
  read : σ → UInt16 → UInt8 × σ
  write : σ → UInt16 → UInt8 → σ

namespace Bus

variable {σ : Type} [Bus σ]

/-- Writes bytes at consecutive addresses, wrapping at the top. -/
def writeAll (bus : σ) (address : UInt16) : List UInt8 → σ
  | [] => bus
  | v :: vs => writeAll (write bus address v) (address + 1) vs

end Bus
end Vic20
