import Vic20.Machine.Frame
import Vic20.Program.Pointers
import Vic20.Program.Prg
import Vic20.Text.Utf8

/-! Building a machine, and what is put into it: expansion memory, cartridges and programs. -/

namespace Vic20

namespace Machine

variable {σ : Type}

/-- Fits an expansion block or removes it. -/
def setBlock (m : Machine σ) (block : Nat) (fitted : Bool) : Except Error Unit × Machine σ :=
  match Memory.blockSizes[block]? with
  | none => (.error (.invalidBlock block), m)
  | some size =>
    if m.core.board.memory.hasBlock block == fitted then (.ok (), m)
    else
      let m := m.onBoard fun b => { b with memory := b.memory.setBlock block fitted }
      (.ok (), m.note (if fitted then .fitted block size else .removed block))

/-- Fits and removes blocks as a preset asks. -/
def setExpansion (m : Machine σ) (preset : Expansion) : Machine σ :=
  (List.finRange 5).foldl (fun m (i : Fin 5) => (m.setBlock i.val (preset.blocks.get i)).2)
    (m.note (.expansion preset))

/-- Which blocks are fitted. -/
def blocks (m : Machine σ) : List Bool := (List.range 5).map m.core.board.memory.hasBlock

/-- A machine as configured, after a reset. -/
def new (config : Config) (images : RomImages) : Except Error (Machine σ) := do
  let roms ← images.validate
  let drive : Drive σ := { Drive.new config.device with longDirectory := config.longDirectory }
  let m : Machine σ := { core := { cpu := .new, board := { memory := .new roms, drive } } }
  return (m.setExpansion config.expansion).reset

/-- Inserts a cartridge. Gives the address that it is for. -/
def insert (m : Machine σ) (bytes : List UInt8) (address : Option UInt16) : Except Error UInt16 × Machine σ :=
  match Cartridge.parse bytes address with
  | .error e => (.error e, m)
  | .ok c =>
    let m := m.onBoard fun b => { b with memory := b.memory.insert c }
    (.ok c.address, m.note (.cartridge c.address bytes.length))

def removeCartridges (m : Machine σ) : Machine σ :=
  (m.onBoard fun b => { b with memory := b.memory.removeCartridges }).note .cartridgesRemoved

/-- The row of the cursor, and where it is once the operating system has started. -/
def cursorRow : UInt16 := 0x00C9
def readyRow : UInt8 := 5

/-- The frames that the operating system may take to start. -/
def bootLimit : Nat := 500

variable [Storage σ]

/-- Runs frames until the operating system has started. -/
def awaitReady (m : Machine σ) : (frames : Nat) → Except Error Unit × Machine σ
  | 0 =>
    let (row, m) := m.read cursorRow
    (if row == readyRow then .ok () else .error (.bootTimeout bootLimit), m)
  | frames + 1 =>
    let (row, m) := m.read cursorRow
    if row == readyRow then (.ok (), m) else (m.runFrame.2).awaitReady frames

/-- Resets, and waits for the operating system. -/
def boot (m : Machine σ) : Except Error Unit × Machine σ :=
  (m.reset.write cursorRow 0).awaitReady bootLimit

/-- What is typed to run a program. -/
def runCommand : List UInt8 := Utf8.bytes "RUN\r"

/-- Puts a program into memory and moves the pointers past it. -/
def place (m : Machine σ) (prg : Prg) (run : Bool) : Machine σ :=
  let (stop, m) := Program.setEnd (prg.load m) prg.payload.length
  let m := m.note (.loaded prg.address prg.endAddress stop)
  if run then m.type runCommand else m

/-- Loads a program, in a machine started anew if asked. Gives the load address. -/
def load (m : Machine σ) (bytes : List UInt8) (restart run : Bool) : Except Error UInt16 × Machine σ :=
  match Prg.parse bytes with
  | .error e => (.error e, m)
  | .ok prg =>
    match if restart then m.boot else (.ok (), m) with
    | (.error e, m) => (.error e, m)
    | (.ok (), m) => (.ok prg.address, m.place prg run)

end Machine
end Vic20
