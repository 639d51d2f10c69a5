import Vic20.Bus.Basic
import Vic20.Error
import Vic20.Word

/-! Program files: a load address, low byte first, and one or more bytes to load there. -/

namespace Vic20

structure Prg where
  address : UInt16
  payload : List UInt8
  deriving DecidableEq, Repr

namespace Prg

def parse : List UInt8 → Except Error Prg
  | low :: high :: v :: vs => .ok ⟨word low high, v :: vs⟩
  | bytes => .error (.prgTooShort bytes.length)

/-- The address after the payload, wrapping at the top of memory. -/
def endAddress (prg : Prg) : UInt16 := prg.address + UInt16.ofNat prg.payload.length

def load {σ : Type} [Bus σ] (prg : Prg) (bus : σ) : σ := Bus.writeAll bus prg.address prg.payload

end Prg
end Vic20
