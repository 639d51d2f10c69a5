import Vic20.Machine.Basic

/-! Running the machine frame by frame. After each frame, text that waits is typed: it goes into the
keyboard buffer of the operating system as far as there is room. -/

namespace Vic20

namespace Board

/-- The keyboard buffer, and where its fill and its size are kept. -/
def keyboardBuffer : UInt16 := 0x0277
def keyboardCount : UInt16 := 0x00C6
def keyboardCapacity : UInt16 := 0x0289

variable {σ : Type}

/-- Types as much of a text as there is room for. Gives the rest. -/
def type (b : Board σ) : List UInt8 → List UInt8 × Board σ
  | [] => ([], b)
  | c :: cs =>
    let (count, b) := b.read keyboardCount
    let (capacity, b) := b.read keyboardCapacity
    if capacity ≤ count then (c :: cs, b)
    else
      let b := b.write (keyboardBuffer + count.toUInt16) c
      type (b.write keyboardCount (count + 1)) cs

end Board

namespace Machine

variable {σ : Type} [Storage σ]

/-- Moves what the drive noted to the machine's journal. -/
def collectDrive (m : Machine σ) : Machine σ :=
  if m.core.board.drive.journal.isEmpty then m
  else
    let ⟨⟨cpu, board, nmiLine⟩, cycle, frames, typing, journal⟩ := m
    let (events, drive) := board.drive.takeJournal
    ⟨⟨cpu, { board with drive }, nmiLine⟩, cycle, frames, typing, journal ++ events.map .drive⟩

/-- A step of the core, with what was noted in it. -/
def step (m : Machine σ) : Nat × Machine σ :=
  let ⟨core, cycle, frames, typing, journal⟩ := m
  let known := core.cpu.unsupported.size
  let (n, core) := core.step
  let journal := if core.cpu.unsupported.size = known then journal
    else journal ++ (core.cpu.notedAfter known).map .unsupported
  (n, collectDrive ⟨core, cycle, frames, typing, journal⟩)

/-- Steps until a frame's cycles have passed, or there is no fuel. Gives the cycles. -/
def runSteps (m : Machine σ) : (fuel run : Nat) → Nat × Machine σ
  | 0, run => (run, m)
  | fuel + 1, run =>
    if Video.cyclesPerFrame ≤ run then (run, m)
    else
      let (n, m) := m.step
      m.runSteps fuel (run + n)

/-- Fuel for a frame. A step that takes no time moves the program counter on by one. There is an
instruction that takes time at $9100, so that fewer than 65536 such steps follow each other. -/
def frameFuel : Nat := Video.cyclesPerFrame * 0x10000

/-- Runs a frame and then types. Gives the cycles run. -/
def runFrame (m : Machine σ) : Nat × Machine σ :=
  let (n, m) := m.runSteps frameFuel 0
  let ⟨⟨cpu, board, nmiLine⟩, cycle, frames, typing, journal⟩ := m
  let (typing, board) := board.type typing
  (n, ⟨⟨cpu, board, nmiLine⟩, cycle + UInt32.ofNat n, frames + 1, typing, journal⟩)

end Machine
end Vic20
