/-! The processor's flag byte. The break and unused bits exist only in copies on the stack: they are
set as a copy is pushed and dropped as one is pulled. -/

namespace Vic20.Cpu

structure Status where
  bits : UInt8
  deriving DecidableEq, Repr

namespace Status

def carry : UInt8 := 0x01
def zero : UInt8 := 0x02
/-- Maskable interrupts are ignored while this is set. -/
def interruptDisable : UInt8 := 0x04
def decimal : UInt8 := 0x08
def brk : UInt8 := 0x10
def unused : UInt8 := 0x20
def overflow : UInt8 := 0x40
def negative : UInt8 := 0x80

/-- Some flag of the mask is set. -/
def test (p : Status) (mask : UInt8) : Bool := p.bits &&& mask != 0

/-- Sets or clears the flags of the mask. -/
def assign (p : Status) (mask : UInt8) (on : Bool) : Status :=
  ⟨if on then p.bits ||| mask else p.bits &&& ~~~mask⟩

/-- Negative and zero as they follow from a result. -/
def ofResult (p : Status) (v : UInt8) : Status :=
  (p.assign negative (v &&& 0x80 != 0)).assign zero (v == 0)

/-- The status for a byte pulled off the stack. -/
def pulled (v : UInt8) : Status := ⟨v &&& ~~~(brk ||| unused)⟩

/-- The byte that an interrupt pushes. -/
def pushedByInterrupt (p : Status) : UInt8 := (p.bits ||| unused) &&& ~~~brk

/-- The byte that an instruction pushes. -/
def pushedByBreak (p : Status) : UInt8 := p.bits ||| unused ||| brk

end Status
end Vic20.Cpu
