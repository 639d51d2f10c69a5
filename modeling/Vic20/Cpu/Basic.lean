import Vic20.Cpu.Decode
import Vic20.Cpu.Execute
import Vic20.Inspect

/-! The processor. Each entry point runs a whole instruction or interrupt entry and gives the cycles
it took, by which the owner advances the other chips. An opcode without an instruction is passed over
in no time and noted when first met. -/

namespace Vic20

/-- An opcode that has no instruction, and where it was met. -/
structure Unsupported where
  opcode : UInt8
  address : UInt16
  deriving DecidableEq, Repr

/-- `unsupported` holds each unsupported opcode met so far, in order. -/
structure Cpu where
  registers : Cpu.Registers := .powerOn
  cycles : Nat := 0
  unsupported : Array Unsupported := #[]
  deriving DecidableEq, Repr

namespace Cpu

variable {σ : Type} [Bus σ]

def new : Cpu := {}

def noteUnsupported (cpu : Cpu) (opcode : UInt8) (address : UInt16) : Cpu :=
  if cpu.unsupported.any (·.opcode == opcode) then cpu
  else { cpu with unsupported := cpu.unsupported.push ⟨opcode, address⟩ }

/-- What was noted after the first so many. -/
def notedAfter (cpu : Cpu) (known : Nat) : Array Unsupported := cpu.unsupported.extract known

def step (cpu : Cpu) (bus : σ) : Nat × Cpu × σ :=
  let start := cpu.registers.pc
  let (opcode, r, bus) := fetch cpu.registers bus
  match decode opcode with
  | none => (0, { cpu with registers := r }.noteUnsupported opcode start, bus)
  | some i =>
    let (n, r, bus) := i.run r bus
    (n, { cpu with registers := r, cycles := cpu.cycles + n }, bus)

def reset (cpu : Cpu) (bus : σ) : Nat × Cpu × σ :=
  let (pc, bus) := readWord bus resetVector
  (6, { cpu with registers := { Registers.powerOn with pc }, cycles := cpu.cycles + 6 }, bus)

def interrupt (cpu : Cpu) (bus : σ) (vector : UInt16) : Nat × Cpu × σ :=
  let r := cpu.registers
  let (r, bus) := enterHandler r bus r.pc r.p.pushedByInterrupt vector
  (7, { cpu with registers := r, cycles := cpu.cycles + 7 }, bus)

/-- A maskable interrupt. While it is masked nothing happens, in no time. -/
def irq (cpu : Cpu) (bus : σ) : Nat × Cpu × σ :=
  if cpu.registers.flag Status.interruptDisable then (0, cpu, bus) else cpu.interrupt bus irqVector

def nmi (cpu : Cpu) (bus : σ) : Nat × Cpu × σ := cpu.interrupt bus nmiVector

instance : Inspect Cpu where
  query cpu path :=
    let r := cpu.registers
    match path with
    | "pc" => some (.word r.pc)
    | "a" => some (.byte r.a)
    | "x" => some (.byte r.x)
    | "y" => some (.byte r.y)
    | "s" | "sp" => some (.byte r.s)
    | "p" | "status" => some (.byte r.p.bits)
    | "flags.c" => some (.bool (r.flag Status.carry))
    | "flags.z" => some (.bool (r.flag Status.zero))
    | "flags.i" => some (.bool (r.flag Status.interruptDisable))
    | "flags.d" => some (.bool (r.flag Status.decimal))
    | "flags.v" => some (.bool (r.flag Status.overflow))
    | "flags.n" => some (.bool (r.flag Status.negative))
    | "cycle" => some (.count cpu.cycles)
    | _ => none
  paths := ["pc", "a", "x", "y", "s", "p", "flags.c", "flags.z", "flags.i", "flags.d", "flags.v",
    "flags.n", "cycle"]

end Cpu
end Vic20
