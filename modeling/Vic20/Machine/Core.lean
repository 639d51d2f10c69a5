import Vic20.Cpu.Basic
import Vic20.Machine.Board

/-! The processor and the board in lockstep. A step is an instruction and the interrupts that follow it.
Each chip is advanced by the cycles they took, in pieces where an interrupt is entered between. -/

namespace Vic20

/-- `nmiLine` is the first adapter's interrupt output as last seen. Only a rise of it interrupts. -/
structure Core (σ : Type) where
  cpu : Cpu
  board : Board σ
  nmiLine : Bool := false

namespace Core

variable {σ : Type}

@[inline] def execute (c : Core σ) : Nat × Core σ :=
  let ⟨cpu, board, nmiLine⟩ := c
  let (n, cpu, board) := cpu.step board
  (n, ⟨cpu, board, nmiLine⟩)

@[inline] def tickVia1 (c : Core σ) (cycles : Nat) : Bool × Core σ :=
  let ⟨cpu, board, nmiLine⟩ := c
  let (asserted, board) := board.tickVia1 cycles
  (asserted, ⟨cpu, board, nmiLine⟩)

@[inline] def tickVia2 (c : Core σ) (cycles : Nat) : Bool × Core σ :=
  let ⟨cpu, board, nmiLine⟩ := c
  let (asserted, board) := board.tickVia2 cycles
  (asserted, ⟨cpu, board, nmiLine⟩)

/-- Follows the first adapter's output, and gives the cycles of the interrupt that a rise causes. What
the output does meanwhile is seen at the next sample. -/
def followNmi (c : Core σ) (asserted : Bool) : Nat × Core σ :=
  if asserted == c.nmiLine then (0, c)
  else
    let ⟨cpu, board, _⟩ := c
    if asserted then
      let (n, cpu, board) := cpu.nmi board
      (n, (Core.tickVia1 ⟨cpu, board, asserted⟩ n).2)
    else (0, ⟨cpu, board, asserted⟩)

/-- Enters the maskable interrupt, unless it is masked. The first adapter can interrupt meanwhile; the
second has done so already. -/
def takeIrq (c : Core σ) : Nat × Core σ :=
  let ⟨cpu, board, nmiLine⟩ := c
  let (n, cpu, board) := cpu.irq board
  let (asserted, c) := Core.tickVia1 ⟨cpu, board, nmiLine⟩ n
  let (nmi, c) := c.followNmi asserted
  (n + nmi, (c.tickVia2 (n + nmi)).2)

/-- Brings the video chip and the drive up to date. -/
def advance [Storage σ] (c : Core σ) (cycles : Nat) : Core σ :=
  let ⟨cpu, board, nmiLine⟩ := c
  ⟨cpu, ((board.tickVic cycles).tickDrive cycles).syncSerial, nmiLine⟩

def step [Storage σ] (c : Core σ) : Nat × Core σ :=
  let (n, c) := c.execute
  let (asserted, c) := c.tickVia1 n
  let (nmi, c) := c.followNmi asserted
  let (requested, c) := c.tickVia2 (n + nmi)
  let (irq, c) := if requested then c.takeIrq else (0, c)
  (n + nmi + irq, c.advance (n + nmi + irq))

def reset (c : Core σ) : Nat × Core σ :=
  let ⟨cpu, board, _⟩ := c
  let (n, cpu, board) := cpu.reset board.reset
  (n, ⟨cpu, board, false⟩)

end Core
end Vic20
