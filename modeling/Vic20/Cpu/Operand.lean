import Vic20.Bus.Basic
import Vic20.Cpu.Instruction
import Vic20.Cpu.Registers
import Vic20.Word

/-! Access to code, operands and the stack. Only accesses that a program can see reach the bus: the
idle reads of indexed modes are left out, since a read can disturb a register of another chip. -/

namespace Vic20.Cpu

inductive Operand where
  | none
  | accumulator
  | immediate (v : UInt8)
  /-- `crossed` tells that indexing went to another page. -/
  | address (target : UInt16) (crossed : Bool)
  | branch (target : UInt16) (crossed : Bool)
  deriving DecidableEq, Repr

variable {σ : Type} [Bus σ]

def fetch (r : Registers) (bus : σ) : UInt8 × Registers × σ :=
  let (v, bus) := Bus.read bus r.pc
  (v, { r with pc := r.pc + 1 }, bus)

def fetchWord (r : Registers) (bus : σ) : UInt16 × Registers × σ :=
  let (low, r, bus) := fetch r bus
  let (high, r, bus) := fetch r bus
  (word low high, r, bus)

def readWord (bus : σ) (address : UInt16) : UInt16 × σ :=
  let (low, bus) := Bus.read bus address
  let (high, bus) := Bus.read bus (address + 1)
  (word low high, bus)

/-- A word whose high byte is read from the same page, as pointers are. -/
def readPointer (bus : σ) (address : UInt16) : UInt16 × σ :=
  let (low, bus) := Bus.read bus address
  let (high, bus) := Bus.read bus (address &&& 0xFF00 ||| (address + 1) &&& 0x00FF)
  (word low high, bus)

def push (r : Registers) (bus : σ) (v : UInt8) : Registers × σ :=
  let (address, r) := r.pushed
  (r, Bus.write bus address v)

def pull (r : Registers) (bus : σ) : UInt8 × Registers × σ :=
  let (address, r) := r.pulled
  let (v, bus) := Bus.read bus address
  (v, r, bus)

def pushWord (r : Registers) (bus : σ) (w : UInt16) : Registers × σ :=
  let (r, bus) := push r bus (highByte w)
  push r bus (lowByte w)

def pullWord (r : Registers) (bus : σ) : UInt16 × Registers × σ :=
  let (low, r, bus) := pull r bus
  let (high, r, bus) := pull r bus
  (word low high, r, bus)

/-- An indexed address. -/
def indexed (base : UInt16) (index : UInt8) : Operand :=
  let target := base + index.toUInt16
  .address target (pageCrossed base target)

/-- A branch target, relative to the instruction after the branch. -/
def branchTarget (next : UInt16) (offset : UInt8) : UInt16 :=
  next + UInt16.ofInt offset.toInt8.toInt

/-- Takes the operand bytes of a mode from the code. -/
def resolve (mode : Mode) (r : Registers) (bus : σ) : Operand × Registers × σ :=
  match mode with
  | .implied => (.none, r, bus)
  | .accumulator => (.accumulator, r, bus)
  | .immediate =>
    let (v, r, bus) := fetch r bus
    (.immediate v, r, bus)
  | .zeroPage =>
    let (zp, r, bus) := fetch r bus
    (.address zp.toUInt16 false, r, bus)
  | .zeroPageX =>
    let (zp, r, bus) := fetch r bus
    (.address (zp + r.x).toUInt16 false, r, bus)
  | .zeroPageY =>
    let (zp, r, bus) := fetch r bus
    (.address (zp + r.y).toUInt16 false, r, bus)
  | .absolute =>
    let (target, r, bus) := fetchWord r bus
    (.address target false, r, bus)
  | .absoluteX =>
    let (base, r, bus) := fetchWord r bus
    (indexed base r.x, r, bus)
  | .absoluteY =>
    let (base, r, bus) := fetchWord r bus
    (indexed base r.y, r, bus)
  | .indexedIndirect =>
    let (zp, r, bus) := fetch r bus
    let (target, bus) := readPointer bus (zp + r.x).toUInt16
    (.address target false, r, bus)
  | .indirectIndexed =>
    let (zp, r, bus) := fetch r bus
    let (base, bus) := readPointer bus zp.toUInt16
    (indexed base r.y, r, bus)
  | .relative =>
    let (offset, r, bus) := fetch r bus
    let target := branchTarget r.pc offset
    (.branch target (pageCrossed r.pc target), r, bus)
  | .indirect =>
    let (pointer, r, bus) := fetchWord r bus
    let (target, bus) := readPointer bus pointer
    (.address target false, r, bus)

/-- The operand's byte. -/
def Operand.load (operand : Operand) (r : Registers) (bus : σ) : UInt8 × σ :=
  match operand with
  | .immediate v => (v, bus)
  | .address target _ => Bus.read bus target
  | .accumulator => (r.a, bus)
  | .none | .branch .. => (0, bus)

/-- Puts a byte where the operand is. -/
def Operand.store (operand : Operand) (r : Registers) (bus : σ) (v : UInt8) : Registers × σ :=
  match operand with
  | .address target _ => (r, Bus.write bus target v)
  | .accumulator => ({ r with a := v }, bus)
  | .none | .immediate _ | .branch .. => (r, bus)

end Vic20.Cpu
