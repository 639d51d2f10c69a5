import Vic20.Via.Basic
import Vic20.Word

/-! Register access. What sits on the pins is told by a wiring: before a port is read the wiring may
drive it, and after an output has changed it is told. Reading a port gives its latch, which for port A
holds the pins, also where they are outputs, and for port B the output register there. -/

namespace Vic20.Via

/-- The ports and control lines that have a wiring. -/
inductive Pin where
  | a | b | ca2 | cb2
  deriving DecidableEq, Repr

/-- What is connected to a VIA, as a state. -/
class Wiring (σ : Type) where
  /-- Drives a port that is about to be read. -/
  portIn : σ → Via → Pin → Via × σ := fun s via _ => (via, s)
  /-- Takes notice of an output. -/
  portOut : σ → Via → Pin → σ := fun s _ _ => s

/-- Nothing connected. -/
instance : Wiring Unit where

variable {σ : Type} [Wiring σ]

def readA (via : Via) (wires : σ) : UInt8 × Via × σ :=
  let (via, wires) := Wiring.portIn wires via .a
  (via.a.latch, via, wires)

def readB (via : Via) (wires : σ) : UInt8 × Via × σ :=
  let (via, wires) := Wiring.portIn wires via .b
  (via.b.latch, via, wires)

/-- The flags as a program reads them, with a summary in bit seven. -/
def flagRegister (via : Via) : UInt8 :=
  via.flags &&& 0x7F ||| (if via.interrupting then 0x80 else 0)

def read (via : Via) (register : UInt8) (wires : σ) : UInt8 × Via × σ :=
  match register.toNat % 16 with
  | 0x0 => readB (via.clear (cb1Flag ||| cb2Flag)) wires
  | 0x1 => readA (via.clear (ca1Flag ||| ca2Flag)) wires
  | 0x2 => (via.b.direction, via, wires)
  | 0x3 => (via.a.direction, via, wires)
  | 0x4 => (lowByte via.timer1.shown, via.clear timer1Flag, wires)
  | 0x5 => (highByte via.timer1.shown, via, wires)
  | 0x6 => (lowByte via.timer1.latch, via, wires)
  | 0x7 => (highByte via.timer1.latch, via, wires)
  | 0x8 => (lowByte via.timer2.shown, via.clear timer2Flag, wires)
  | 0x9 => (highByte via.timer2.shown, via, wires)
  | 0xA => (via.shift, via, wires)
  | 0xB => (via.auxiliary, via, wires)
  | 0xC => (via.peripheral, via, wires)
  | 0xD => (via.flagRegister, via, wires)
  | 0xE => (via.enabled ||| 0x80, via, wires)
  | _ => readA via wires

def writeA (via : Via) (v : UInt8) (wires : σ) : Via × σ :=
  let via := { via with a := { via.a with output := v }.refresh.latchPins }
  (via, Wiring.portOut wires via .a)

/-- The level that the three mode bits of a control line force it to: low for 110, high for 111. -/
def forcedLevel (mode : UInt8) : Option Bool :=
  if mode &&& 0x07 == 0x06 then some false
  else if mode &&& 0x07 == 0x07 then some true
  else none

def writePeripheral (via : Via) (v : UInt8) (wires : σ) : Via × σ :=
  let via := { via with peripheral := v }
  let (via, wires) := match forcedLevel (v >>> 1) with
    | some level =>
      let via := { via with ca2 := level }
      (via, Wiring.portOut wires via .ca2)
    | none => (via, wires)
  match forcedLevel (v >>> 5) with
  | some level =>
    let via := { via with cb2 := level }
    (via, Wiring.portOut wires via .cb2)
  | none => (via, wires)

/-- Enables the interrupts of the mask if bit seven is set, else disables them. -/
def writeEnabled (via : Via) (v : UInt8) : Via :=
  { via with enabled :=
      if v &&& 0x80 != 0 then via.enabled ||| v &&& 0x7F else via.enabled &&& ~~~v &&& 0x7F }

def write (via : Via) (register v : UInt8) (wires : σ) : Via × σ :=
  match register.toNat % 16 with
  | 0x0 =>
    let via := { via with b := { via.b with output := v }.refresh.latchMixed }
    (via.clear (cb1Flag ||| cb2Flag), Wiring.portOut wires via .b)
  | 0x1 => writeA (via.clear (ca1Flag ||| ca2Flag)) v wires
  | 0x2 => ({ via with b := { via.b with direction := v }.refresh.latchMixed }, wires)
  | 0x3 => ({ via with a := { via.a with direction := v }.refresh.latchPins }, wires)
  | 0x4 | 0x6 => ({ via with timer1 := via.timer1.setLatchLow v }, wires)
  | 0x5 => ({ via with timer1 := (via.timer1.setLatchHigh v).start }.clear timer1Flag, wires)
  | 0x7 => ({ via with timer1 := via.timer1.setLatchHigh v }.clear timer1Flag, wires)
  | 0x8 => ({ via with timer2 := { via.timer2 with latchLow := v } }, wires)
  | 0x9 => ({ via with timer2 := via.timer2.start v }.clear timer2Flag, wires)
  | 0xA => ({ via with shift := v }, wires)
  | 0xB => ({ via with auxiliary := v }, wires)
  | 0xC => writePeripheral via v wires
  | 0xD => ({ via with flags := via.flags &&& ~~~v &&& 0x7F }, wires)
  | 0xE => (via.writeEnabled v, wires)
  | _ => writeA via v wires

end Vic20.Via
