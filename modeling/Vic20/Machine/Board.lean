import Vic20.Bus.Basic
import Vic20.Drive.Handshake
import Vic20.Input.Joystick
import Vic20.Input.Keyboard
import Vic20.Memory.Basic
import Vic20.Via.Access
import Vic20.Video.Raster
import Vic20.Video.Registers

/-! The board: everything but the processor, and how it is connected. The video chip is at $9000 to $90FF.
From $9100 to $93FF address bits four and five select the two adapters, the first before the second.
All else is memory, which has nothing in between.

The first adapter reads the joystick and the drive's lines and drives attention; the second scans the
keyboard, reads one switch of the joystick and drives clock and data. -/

namespace Vic20

/-- The state of the board, with a drive over storage of type `σ`. -/
structure Board (σ : Type) where
  memory : Memory
  vic : Vic := .new
  via1 : Via := .new
  via2 : Via := .new
  keyboard : Keyboard := .new
  joystick : Joystick := {}
  drive : Drive σ

namespace Board

/-- What the first adapter is connected to. -/
structure Wires1 (σ : Type) where
  joystick : Joystick
  drive : Drive σ

/-- What the second adapter is connected to. -/
structure Wires2 (σ : Type) where
  keyboard : Keyboard
  joystick : Joystick
  drive : Drive σ

/-- A closed switch pulls its pin low. -/
def driveSwitch (j : Joystick) (via : Via) (s : Switch) : Via :=
  match s.portBit with
  | some bit => if j.get s then via.setBitA bit false else via.openBitA bit
  | none => via

/-- The attention line goes out through an inverter, so a high pin pulls it. -/
def attentionPulled (via : Via) : Bool := via.a.pins &&& 0x80 != 0

/-- The bits of the first adapter's port A that show the drive's lines, and the bit of the second
adapter's port B that shows the joystick. -/
def clkBit : UInt8 := 0
def dataBit : UInt8 := 1
def rightBit : UInt8 := 7

variable {σ : Type}

instance : Via.Wiring (Wires1 σ) where
  portIn w via
    | .a => (Switch.all.foldl (driveSwitch w.joystick) via, w)
    | _ => (via, w)
  portOut w via
    | .a => { w with drive := w.drive.setAtn (attentionPulled via) }
    | _ => w

instance : Via.Wiring (Wires2 σ) where
  portIn w via
    | .b =>
      let via := via.setB w.keyboard.columnStatus
      (if w.joystick.right then via.setBitB rightBit false else via, w)
    | .a => (via.setA w.keyboard.rowStatus, w)
    | _ => (via, w)
  portOut w via
    | .a => { w with keyboard := w.keyboard.selectRows via.a.pins }
    | .b => { w with keyboard := w.keyboard.selectColumns via.b.pins }
    | .ca2 => { w with drive := w.drive.setClk via.ca2 }
    | .cb2 => { w with drive := w.drive.setData via.cb2 }

/-- What answers at an address. -/
inductive Chip where
  | memory | vic | via1 | via2
  deriving DecidableEq, Repr

@[inline] def Chip.ofAddress (address : UInt16) : Chip :=
  if address < 0x9000 ∨ 0x9400 ≤ address then .memory
  else if address < 0x9100 then .vic
  else if address &&& 0x10 != 0 then .via1
  else if address &&& 0x20 != 0 then .via2
  else .memory

/-- The register of a chip at an address. -/
@[inline] def registerOf (address : UInt16) : UInt8 := lowByte address &&& 0x0F

def read (b : Board σ) (address : UInt16) : UInt8 × Board σ :=
  match Chip.ofAddress address with
  | .memory => (b.memory.read address, b)
  | .vic => (b.vic.read (registerOf address), b)
  | .via1 =>
    let ⟨memory, vic, via1, via2, keyboard, joystick, drive⟩ := b
    let (v, via1, wires) := via1.read (registerOf address) (Wires1.mk joystick drive)
    (v, ⟨memory, vic, via1, via2, keyboard, wires.joystick, wires.drive⟩)
  | .via2 =>
    let ⟨memory, vic, via1, via2, keyboard, joystick, drive⟩ := b
    let (v, via2, wires) := via2.read (registerOf address) (Wires2.mk keyboard joystick drive)
    (v, ⟨memory, vic, via1, via2, wires.keyboard, wires.joystick, wires.drive⟩)

def write (b : Board σ) (address : UInt16) (v : UInt8) : Board σ :=
  let ⟨memory, vic, via1, via2, keyboard, joystick, drive⟩ := b
  match Chip.ofAddress address with
  | .memory => ⟨memory.write address v, vic, via1, via2, keyboard, joystick, drive⟩
  | .vic => ⟨memory, vic.write (registerOf address) v, via1, via2, keyboard, joystick, drive⟩
  | .via1 =>
    let (via1, wires) := via1.write (registerOf address) v (Wires1.mk joystick drive)
    ⟨memory, vic, via1, via2, keyboard, wires.joystick, wires.drive⟩
  | .via2 =>
    let (via2, wires) := via2.write (registerOf address) v (Wires2.mk keyboard joystick drive)
    ⟨memory, vic, via1, via2, wires.keyboard, wires.joystick, wires.drive⟩

instance : Bus (Board σ) where
  read := read
  write := write

/-- What a read would give with nothing on the pins. -/
def peek (b : Board σ) (address : UInt16) : UInt8 :=
  match Chip.ofAddress address with
  | .memory => b.memory.read address
  | .vic => b.vic.read (registerOf address)
  | .via1 => (b.via1.read (registerOf address) ()).1
  | .via2 => (b.via2.read (registerOf address) ()).1

/-- Advances an adapter. Gives its interrupt output. -/
@[inline] def tickVia1 (b : Board σ) (cycles : Nat) : Bool × Board σ :=
  let ⟨memory, vic, via1, via2, keyboard, joystick, drive⟩ := b
  let (asserted, via1) := via1.tick (.ofNat cycles)
  (asserted, ⟨memory, vic, via1, via2, keyboard, joystick, drive⟩)

@[inline] def tickVia2 (b : Board σ) (cycles : Nat) : Bool × Board σ :=
  let ⟨memory, vic, via1, via2, keyboard, joystick, drive⟩ := b
  let (asserted, via2) := via2.tick (.ofNat cycles)
  (asserted, ⟨memory, vic, via1, via2, keyboard, joystick, drive⟩)

/-- Shows the drive's lines to the first adapter. A line pulled low reads as zero. -/
def syncSerial (b : Board σ) : Board σ :=
  let ⟨memory, vic, via1, via2, keyboard, joystick, drive⟩ := b
  let via1 := (via1.setBitA clkBit !drive.clkOut).setBitA dataBit !drive.dataOut
  ⟨memory, vic, via1, via2, keyboard, joystick, drive⟩

/-- Advances the video chip. -/
def tickVic (b : Board σ) (cycles : Nat) : Board σ :=
  let ⟨memory, vic, via1, via2, keyboard, joystick, drive⟩ := b
  ⟨memory, vic.tick memory cycles, via1, via2, keyboard, joystick, drive⟩

/-- Advances the drive, which is at rest unless it is addressed. -/
def tickDrive [Storage σ] (b : Board σ) (cycles : Nat) : Board σ :=
  let ⟨memory, vic, via1, via2, keyboard, joystick, drive⟩ := b
  ⟨memory, vic, via1, via2, keyboard, joystick, if drive.active then drive.tick cycles else drive⟩

/-- Resets everything but memory and the drive's storage. The line of the RESTORE key is pulled up. -/
def reset (b : Board σ) : Board σ :=
  let ⟨memory, vic, _, _, _, _, drive⟩ := b
  { memory, vic := vic.reset, via1 := Via.new.setCA1 true, drive := drive.reset : Board σ }.syncSerial

end Board
end Vic20
