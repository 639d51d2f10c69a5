import Vic20.Inspect
import Vic20.Via.Timers

/-! The versatile interface adapter: two ports, two timers, a shift register that only holds its
byte, four control lines and an interrupt controller. -/

namespace Vic20

namespace Via

/-- The interrupt flags. -/
def ca2Flag : UInt8 := 0x01
def ca1Flag : UInt8 := 0x02
def cb2Flag : UInt8 := 0x08
def cb1Flag : UInt8 := 0x10
def timer2Flag : UInt8 := 0x20
def timer1Flag : UInt8 := 0x40

/-- The bits of the auxiliary control register in use. -/
def freeRunBit : UInt8 := 0x40
def countPulsesBit : UInt8 := 0x20

/-- The bits of the peripheral control register that choose the rising edge. -/
def ca1RisingBit : UInt8 := 0x01
def cb1RisingBit : UInt8 := 0x10

/-- A port: the levels on its pins, the latch that a program reads, the output register, and the
direction of each pin, where one stands for an output. -/
structure Port where
  pins : UInt8 := 0xFF
  latch : UInt8 := 0xFF
  output : UInt8 := 0
  direction : UInt8 := 0
  deriving DecidableEq, Repr

namespace Port

/-- The pins where they are inputs and the output register where they are outputs. -/
def mixed (p : Port) : UInt8 := p.output &&& p.direction ||| p.pins &&& ~~~p.direction

/-- Latches the pins, also where they are outputs. Port A does so. -/
@[inline] def latchPins (p : Port) : Port := { p with latch := p.pins }

/-- Latches the output register where the pins are outputs. Port B does so. -/
def latchMixed (p : Port) : Port := { p with latch := p.mixed }

/-- Drives the output pins from the output register. -/
def refresh (p : Port) : Port := { p with pins := p.mixed }

@[inline] def setBit (p : Port) (bit : UInt8) (on : Bool) : Port :=
  let mask : UInt8 := 1 <<< bit
  { p with pins := p.pins &&& ~~~mask ||| (if on then mask else 0) }

/-- Lets go of a pin: an output returns to the output register, an input is pulled up. -/
def openBit (p : Port) (bit : UInt8) : Port :=
  let mask : UInt8 := 1 <<< bit
  p.setBit bit (if p.direction &&& mask != 0 then p.output &&& mask != 0 else true)

end Port

/-- An edge-sensitive line: its level, and the level to which a tick compares it. -/
structure Line where
  level : Bool := false
  seen : Bool := false
  deriving DecidableEq, Repr

namespace Line

/-- Sets the level. The level before the call is what the next tick compares with. -/
def set (l : Line) (level : Bool) : Line := ⟨level, l.level⟩

/-- Samples the line, and tells whether the chosen edge occurred. -/
@[inline] def sample (l : Line) (rising : Bool) : Line × Bool :=
  ({ l with seen := l.level }, l.level != l.seen && l.level == rising)

end Line
end Via

structure Via where
  a : Via.Port := {}
  b : Via.Port := {}
  timer1 : Via.Timer1 := {}
  timer2 : Via.Timer2 := {}
  shift : UInt8 := 0
  auxiliary : UInt8 := 0
  peripheral : UInt8 := 0
  flags : UInt8 := 0
  enabled : UInt8 := 0
  ca1 : Via.Line := {}
  ca2 : Bool := false
  cb1 : Via.Line := {}
  cb2 : Bool := false
  deriving DecidableEq, Repr

namespace Via

def new : Via := {}

/-- An enabled interrupt flag is set. -/
def interrupting (via : Via) : Bool := via.flags &&& via.enabled &&& 0x7F != 0

/-- A flag, if what it stands for occurred. -/
@[inline] def flagIf (flag : UInt8) (occurred : Bool) : UInt8 := if occurred then flag else 0

def clear (via : Via) (flags : UInt8) : Via := { via with flags := via.flags &&& ~~~flags }

/-- Advances both timers and samples the edge-sensitive lines. Gives whether an interrupt is
pending. The timers take the cycles as a signed word. -/
def tick (via : Via) (cycles : UInt32) : Bool × Via :=
  let timer1 := via.timer1.tick (via.auxiliary &&& freeRunBit != 0) cycles.toInt32
  let timer2 := via.timer2.tick (via.auxiliary &&& countPulsesBit != 0) cycles.toInt32
  let ca1 := via.ca1.sample (via.peripheral &&& ca1RisingBit != 0)
  let cb1 := via.cb1.sample (via.peripheral &&& cb1RisingBit != 0)
  let flags := via.flags ||| flagIf timer1Flag timer1.2 ||| flagIf timer2Flag timer2.2 |||
    flagIf ca1Flag ca1.2 ||| flagIf cb1Flag cb1.2
  let via := { via with timer1 := timer1.1, timer2 := timer2.1, ca1 := ca1.1, cb1 := cb1.1, flags }
  (via.interrupting, via)

/-! The machine's side of the pins. -/

def setA (via : Via) (v : UInt8) : Via := { via with a := { via.a with pins := v }.latchPins }
def setB (via : Via) (v : UInt8) : Via := { via with b := { via.b with pins := v }.latchMixed }
@[inline] def setBitA (via : Via) (bit : UInt8) (on : Bool) : Via :=
  { via with a := (via.a.setBit bit on).latchPins }
def setBitB (via : Via) (bit : UInt8) (on : Bool) : Via :=
  { via with b := (via.b.setBit bit on).latchMixed }
def openBitA (via : Via) (bit : UInt8) : Via := { via with a := (via.a.openBit bit).latchPins }
def openBitB (via : Via) (bit : UInt8) : Via := { via with b := (via.b.openBit bit).latchMixed }
def setCA1 (via : Via) (level : Bool) : Via := { via with ca1 := via.ca1.set level }
def setCA2 (via : Via) (level : Bool) : Via := { via with ca2 := level }
def setCB1 (via : Via) (level : Bool) : Via := { via with cb1 := via.cb1.set level }
def setCB2 (via : Via) (level : Bool) : Via := { via with cb2 := level }

instance : Inspect Via where
  query via
    | "pa" => some (.byte via.a.pins)
    | "pb" => some (.byte via.b.pins)
    | "ddra" => some (.byte via.a.direction)
    | "ddrb" => some (.byte via.b.direction)
    | "t1" => some (.word via.timer1.shown)
    | "t1_latch" => some (.word via.timer1.latch)
    | "t2" => some (.word via.timer2.shown)
    | "acr" => some (.byte via.auxiliary)
    | "pcr" => some (.byte via.peripheral)
    | "ifr" => some (.byte via.flags)
    | "ier" => some (.byte via.enabled)
    | "ca1" => some (.bool via.ca1.level)
    | "ca2" => some (.bool via.ca2)
    | "cb1" => some (.bool via.cb1.level)
    | "cb2" => some (.bool via.cb2)
    | "irq" => some (.bool via.interrupting)
    | _ => none
  paths := ["pa", "pb", "ddra", "ddrb", "t1", "t1_latch", "t2", "acr", "pcr", "ifr", "ier", "ca1",
    "ca2", "cb1", "cb2", "irq"]

end Via
end Vic20
