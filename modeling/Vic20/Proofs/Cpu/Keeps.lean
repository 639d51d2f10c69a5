import Vic20.Cpu.Basic

/-! The processor reaches all else by its bus. So what every read and every write keeps, an instruction and the
entry into an interrupt keep. -/

namespace Vic20

/-- Reads and writes keep a property of what is on the bus. -/
structure Bus.Keeps {σ : Type} [Bus σ] (P : σ → Prop) : Prop where
  read {bus : σ} (h : P bus) (address : UInt16) : P (Bus.read bus address).2
  write {bus : σ} (h : P bus) (address : UInt16) (v : UInt8) : P (Bus.write bus address v)

namespace Bus.Keeps

open Cpu

variable {σ : Type} [Bus σ] {P : σ → Prop} (hP : Bus.Keeps P) {bus : σ} (h : P bus) (r : Registers)

include hP h

theorem fetch : P (fetch r bus).2.2 := hP.read h r.pc

theorem fetchWord : P (fetchWord r bus).2.2 := hP.fetch (hP.fetch h r) _

theorem readWord (address : UInt16) : P (readWord bus address).2 := hP.read (hP.read h address) _

theorem readPointer (address : UInt16) : P (readPointer bus address).2 := hP.read (hP.read h address) _

theorem push (v : UInt8) : P (push r bus v).2 := hP.write h _ v

theorem pushWord (w : UInt16) : P (pushWord r bus w).2 := hP.push (hP.push h r _) _ _

theorem pull : P (pull r bus).2.2 := hP.read h _

theorem pullWord : P (pullWord r bus).2.2 := hP.pull (hP.pull h r) _

theorem resolve (mode : Mode) : P (resolve mode r bus).2.2 := by
  cases mode with
  | implied | accumulator => exact h
  | immediate | zeroPage | zeroPageX | zeroPageY | relative => exact hP.fetch h r
  | absolute | absoluteX | absoluteY => exact hP.fetchWord h r
  | indexedIndirect | indirectIndexed => exact hP.readPointer (hP.fetch h r) _
  | indirect => exact hP.readPointer (hP.fetchWord h r) _

theorem load (operand : Operand) : P (operand.load r bus).2 := by
  cases operand with
  | address target crossed => exact hP.read h target
  | _ => exact h

theorem store (operand : Operand) (v : UInt8) : P (operand.store r bus v).2 := by
  cases operand with
  | address target crossed => exact hP.write h target v
  | _ => exact h

theorem enterHandler (back : UInt16) (status : UInt8) (vector : UInt16) :
    P (enterHandler r bus back status vector).2 :=
  hP.readWord (hP.push (hP.pushWord h r back) _ status) vector

theorem control (op : ControlOp) (operand : Operand) : P (op.run operand r bus).2 := by
  cases op with
  | jmp => cases operand <;> exact h
  | jsr =>
    cases operand with
    | address target crossed => exact hP.pushWord h r _
    | _ => exact h
  | rts => exact hP.pullWord h r
  | rti => exact hP.pullWord (hP.pull h r) _
  | brk => exact hP.enterHandler h r _ _ _
  | pha | php => exact hP.push h r _
  | pla | plp => exact hP.pull h r

theorem op (op : Op) (operand : Operand) : P (op.run operand r bus).2.2 := by
  cases op with
  | read op => exact hP.load h r operand
  | store op => exact hP.store h r operand _
  | modify op => exact hP.store (hP.load h r operand) _ operand _
  | branch op =>
    cases operand with
    | branch target crossed =>
      unfold Op.run
      dsimp only
      split <;> exact h
    | _ => exact h
  | control op => exact hP.control h r op operand
  | register op | nop => exact h

theorem run (i : Instruction) : P (i.run r bus).2.2 := hP.op (hP.resolve h r i.mode) _ i.op _

theorem step (cpu : Cpu) : P (cpu.step bus).2.2 := by
  have hfetched := hP.fetch h cpu.registers
  unfold Cpu.step
  dsimp only
  split
  · exact hfetched
  · exact hP.run hfetched _ _

theorem interrupt (cpu : Cpu) (vector : UInt16) : P (cpu.interrupt bus vector).2.2 :=
  hP.enterHandler h cpu.registers _ _ vector

theorem irq (cpu : Cpu) : P (cpu.irq bus).2.2 := by
  unfold Cpu.irq
  split
  · exact h
  · exact hP.interrupt h cpu irqVector

theorem nmi (cpu : Cpu) : P (cpu.nmi bus).2.2 := hP.interrupt h cpu nmiVector

end Bus.Keeps
end Vic20
