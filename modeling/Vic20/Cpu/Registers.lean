import Vic20.Cpu.Status

/-! The register file. The stack is page one; its pointer wraps within the page. -/

namespace Vic20.Cpu

structure Registers where
  a : UInt8 := 0
  x : UInt8 := 0
  y : UInt8 := 0
  s : UInt8 := 0xFD
  pc : UInt16 := 0
  p : Status := ⟨Status.interruptDisable⟩
  deriving DecidableEq, Repr

namespace Registers

def powerOn : Registers := {}

def stackAddress (s : UInt8) : UInt16 := 0x0100 ||| s.toUInt16

/-- The address to push to, and the registers after the push. -/
def pushed (r : Registers) : UInt16 × Registers :=
  (stackAddress r.s, { r with s := r.s - 1 })

/-- The address to pull from, and the registers after the pull. -/
def pulled (r : Registers) : UInt16 × Registers :=
  (stackAddress (r.s + 1), { r with s := r.s + 1 })

def flag (r : Registers) (mask : UInt8) : Bool := r.p.test mask

def setFlag (r : Registers) (mask : UInt8) (on : Bool) : Registers :=
  { r with p := r.p.assign mask on }

/-- Negative and zero follow `v`. -/
def result (r : Registers) (v : UInt8) : Registers := { r with p := r.p.ofResult v }

def setA (r : Registers) (v : UInt8) : Registers := { r with a := v }.result v
def setX (r : Registers) (v : UInt8) : Registers := { r with x := v }.result v
def setY (r : Registers) (v : UInt8) : Registers := { r with y := v }.result v

/-- The carry as a digit. -/
def carry (r : Registers) : UInt8 := if r.flag Status.carry then 1 else 0

end Registers
end Vic20.Cpu
