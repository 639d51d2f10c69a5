import Vic20.Config.Basic
import Vic20.Machine.Core
import Vic20.Machine.Event

/-! The machine: the chips, counters of its time, text that waits to be typed, and a journal of what it
did. Operations that can fail give the machine after the failure. -/

namespace Vic20

/-- `cycle` counts processor cycles since the last reset and wraps, `frames` the frames run. -/
structure Machine (σ : Type) where
  core : Core σ
  cycle : UInt32 := 0
  frames : Nat := 0
  typing : List UInt8 := []
  journal : Array Machine.Event := #[]

namespace Machine

variable {σ : Type}

def note (m : Machine σ) (e : Event) : Machine σ :=
  let ⟨core, cycle, frames, typing, journal⟩ := m
  ⟨core, cycle, frames, typing, journal.push e⟩

/-- The events noted since this was last asked. -/
def takeJournal (m : Machine σ) : Array Event × Machine σ := (m.journal, { m with journal := #[] })

/-- Changes the board. -/
def onBoard (m : Machine σ) (f : Board σ → Board σ) : Machine σ :=
  let ⟨⟨cpu, board, nmiLine⟩, cycle, frames, typing, journal⟩ := m
  ⟨⟨cpu, f board, nmiLine⟩, cycle, frames, typing, journal⟩

def read (m : Machine σ) (address : UInt16) : UInt8 × Machine σ :=
  let ⟨⟨cpu, board, nmiLine⟩, cycle, frames, typing, journal⟩ := m
  let (v, board) := board.read address
  (v, ⟨⟨cpu, board, nmiLine⟩, cycle, frames, typing, journal⟩)

def write (m : Machine σ) (address : UInt16) (v : UInt8) : Machine σ := m.onBoard (·.write address v)

instance : Bus (Machine σ) where
  read := read
  write := write

def peek (m : Machine σ) (address : UInt16) : UInt8 := m.core.board.peek address

/-- Resets all chips and starts the processor. Memory, what is fitted or attached, and the count of
frames are kept. -/
def reset (m : Machine σ) : Machine σ :=
  let ⟨core, _, frames, _, journal⟩ := m
  let (n, core) := core.reset
  ⟨core, UInt32.ofNat n, frames, [], journal.push .reset⟩

/-- Queues text to be typed. -/
def type (m : Machine σ) (text : List UInt8) : Machine σ := { m with typing := m.typing ++ text }

/-! Input and storage. -/

def setKey (m : Machine σ) (row column : Nat) (pressed : Bool) : Machine σ :=
  m.onBoard fun b => { b with keyboard := b.keyboard.set row column pressed }

def releaseKeys (m : Machine σ) : Machine σ := m.onBoard fun b => { b with keyboard := .new }

def setSwitch (m : Machine σ) (s : Switch) (closed : Bool) : Machine σ :=
  m.onBoard fun b => { b with joystick := b.joystick.set s closed }

/-- The RESTORE key pulls its line low. -/
def setRestore (m : Machine σ) (pressed : Bool) : Machine σ :=
  m.onBoard fun b => { b with via1 := b.via1.setCA1 !pressed }

def attach (m : Machine σ) (storage : σ) : Machine σ :=
  m.onBoard fun b => { b with drive := { b.drive with storage := some storage } }

end Machine
end Vic20
