import Vic20.Cpu.Alu
import Vic20.Cpu.Operand

/-! What each operation does. The undocumented operations run two documented ones on one operand. -/

namespace Vic20.Cpu

open Status

/-- The interrupt vectors. -/
def nmiVector : UInt16 := 0xFFFA
def resetVector : UInt16 := 0xFFFC
def irqVector : UInt16 := 0xFFFE

def ReadOp.apply (op : ReadOp) (r : Registers) (v : UInt8) : Registers :=
  match op with
  | .lda => r.setA v
  | .ldx => r.setX v
  | .ldy => r.setY v
  | .lax => { r with x := v }.setA v
  | .adc => r.add v
  | .sbc => r.subtract v
  | .and => r.setA (r.a &&& v)
  | .ora => r.setA (r.a ||| v)
  | .eor => r.setA (r.a ^^^ v)
  | .cmp => r.compare r.a v
  | .cpx => r.compare r.x v
  | .cpy => r.compare r.y v
  | .bit => r.bitTest v
  | .anc => (r.setA (r.a &&& v)).setFlag carry (r.a &&& v &&& 0x80 != 0)
  | .alr =>
    let (w, r) := r.shiftRight (r.a &&& v)
    { r with a := w }
  | .arr => r.andRotate v
  | .sbx => r.subtractFromAX v

/-- The byte stored. -/
def StoreOp.byte (op : StoreOp) (r : Registers) : UInt8 :=
  match op with
  | .sta => r.a
  | .stx => r.x
  | .sty => r.y
  | .sax => r.a &&& r.x

/-- The byte written back, and the registers as the change leaves them. -/
def ModifyOp.change (op : ModifyOp) (r : Registers) (v : UInt8) : UInt8 × Registers :=
  match op with
  | .asl | .slo => r.shiftLeft v
  | .lsr | .sre => r.shiftRight v
  | .rol | .rla => r.rotateLeft v
  | .ror | .rra => r.rotateRight v
  | .inc => (v + 1, r.result (v + 1))
  | .dec => (v - 1, r.result (v - 1))
  | .isc => (v + 1, r)
  | .dcp => (v - 1, r)

/-- What an undocumented operation does with the byte written back. -/
def ModifyOp.combine (op : ModifyOp) (r : Registers) (w : UInt8) : Registers :=
  match op with
  | .slo => r.setA (r.a ||| w)
  | .sre => r.setA (r.a ^^^ w)
  | .rla => r.setA (r.a &&& w)
  | .rra => r.add w
  | .isc => r.subtract w
  | .dcp => r.compare r.a w
  | .asl | .lsr | .rol | .ror | .inc | .dec => r

def RegisterOp.apply (op : RegisterOp) (r : Registers) : Registers :=
  match op with
  | .tax => r.setX r.a
  | .tay => r.setY r.a
  | .txa => r.setA r.x
  | .tya => r.setA r.y
  | .tsx => r.setX r.s
  | .txs => { r with s := r.x }
  | .inx => r.setX (r.x + 1)
  | .iny => r.setY (r.y + 1)
  | .dex => r.setX (r.x - 1)
  | .dey => r.setY (r.y - 1)
  | .clc => r.setFlag carry false
  | .sec => r.setFlag carry true
  | .cli => r.setFlag interruptDisable false
  | .sei => r.setFlag interruptDisable true
  | .cld => r.setFlag decimal false
  | .sed => r.setFlag decimal true
  | .clv => r.setFlag overflow false

def BranchOp.taken (op : BranchOp) (p : Status) : Bool :=
  match op with
  | .bcc => !p.test carry
  | .bcs => p.test carry
  | .bne => !p.test zero
  | .beq => p.test zero
  | .bpl => !p.test negative
  | .bmi => p.test negative
  | .bvc => !p.test overflow
  | .bvs => p.test overflow

variable {σ : Type} [Bus σ]

/-- Pushes the return address and a status byte, and goes where the vector points. -/
def enterHandler (r : Registers) (bus : σ) (back : UInt16) (status : UInt8) (vector : UInt16) :
    Registers × σ :=
  let (r, bus) := pushWord r bus back
  let (r, bus) := push r bus status
  let (pc, bus) := readWord bus vector
  ({ r.setFlag interruptDisable true with pc }, bus)

def ControlOp.run (op : ControlOp) (operand : Operand) (r : Registers) (bus : σ) : Registers × σ :=
  match op, operand with
  | .jmp, .address target _ => ({ r with pc := target }, bus)
  | .jsr, .address target _ =>
    let (r, bus) := pushWord r bus (r.pc - 1)
    ({ r with pc := target }, bus)
  | .jmp, _ | .jsr, _ => (r, bus)
  | .rts, _ =>
    let (back, r, bus) := pullWord r bus
    ({ r with pc := back + 1 }, bus)
  | .rti, _ =>
    let (status, r, bus) := pull r bus
    let (back, r, bus) := pullWord r bus
    ({ r with p := .pulled status, pc := back }, bus)
  | .brk, _ => enterHandler r bus (r.pc + 1) r.p.pushedByBreak irqVector
  | .pha, _ => push r bus r.a
  | .php, _ => push r bus r.p.pushedByBreak
  | .pla, _ =>
    let (v, r, bus) := pull r bus
    (r.setA v, bus)
  | .plp, _ =>
    let (status, r, bus) := pull r bus
    ({ r with p := .pulled status }, bus)

/-- Runs an operation on its operand. The count is of cycles beyond the base count: one for a
branch taken and one more if it goes to another page. -/
def Op.run (op : Op) (operand : Operand) (r : Registers) (bus : σ) : Nat × Registers × σ :=
  match op with
  | .read op =>
    let (v, bus) := operand.load r bus
    (0, op.apply r v, bus)
  | .store op => (0, operand.store r bus (op.byte r))
  | .modify op =>
    let (v, bus) := operand.load r bus
    let (w, r) := op.change r v
    let (r, bus) := operand.store r bus w
    (0, op.combine r w, bus)
  | .register op => (0, op.apply r, bus)
  | .branch op =>
    match operand with
    | .branch target crossed =>
      if op.taken r.p then (if crossed then 2 else 1, { r with pc := target }, bus) else (0, r, bus)
    | _ => (0, r, bus)
  | .control op => (0, op.run operand r bus)
  | .nop => (0, r, bus)

/-- The cycle that indexing across a page costs. -/
def indexPenalty (op : Op) : Operand → Nat
  | .address _ true => if op.paysPageCross then 1 else 0
  | _ => 0

/-- Runs an instruction whose opcode has been fetched, and counts its cycles. -/
def Instruction.run (i : Instruction) (r : Registers) (bus : σ) : Nat × Registers × σ :=
  let (operand, r, bus) := resolve i.mode r bus
  let (extra, r, bus) := i.op.run operand r bus
  (i.cycles + indexPenalty i.op operand + extra, r, bus)

end Vic20.Cpu
