import Mathlib.Tactic.SplitIfs
import Vic20.Cpu.Basic

/-! How long the processor takes. An instruction takes two to eight cycles, with what indexing and branches
add. Only an opcode without an instruction takes none, and it is one byte long. -/

namespace Vic20.Cpu

/-- The most cycles that an operation adds to the count of its instruction. -/
def Op.mostExtra : Op → Nat
  | .branch _ => 2
  | op => if op.paysPageCross then 1 else 0

theorem decode_cycles {opcode : UInt8} {i : Instruction} (h : decode opcode = some i) :
    2 ≤ i.cycles ∧ i.cycles + i.op.mostExtra ≤ 8 := by
  have hall : ∀ v : BitVec 8, ∀ i ∈ decode ⟨v⟩, 2 ≤ i.cycles ∧ i.cycles + i.op.mostExtra ≤ 8 := by
    decide +kernel
  exact hall opcode.toBitVec i h

variable {σ : Type} [Bus σ] {cpu : Cpu} {bus : σ}

theorem indexPenalty_le (op : Op) (operand : Operand) :
    indexPenalty op operand ≤ if op.paysPageCross then 1 else 0 := by
  unfold indexPenalty
  split
  · exact Nat.le_refl _
  · exact Nat.zero_le _

theorem branch_extra_le (op : BranchOp) (operand : Operand) (r : Registers) (bus : σ) :
    ((Op.branch op).run operand r bus).1 ≤ 2 := by
  cases operand with
  | branch target crossed =>
    simp only [Op.run]
    split_ifs <;> simp
  | _ => exact Nat.zero_le 2

theorem extra_le (op : Op) (operand : Operand) (r : Registers) (bus : σ) :
    indexPenalty op operand + (op.run operand r bus).1 ≤ op.mostExtra := by
  have hpenalty := indexPenalty_le op operand
  cases op with
  | branch op =>
    have hextra := branch_extra_le op operand r bus
    have hnone : indexPenalty (.branch op) operand ≤ 0 := hpenalty
    exact Nat.add_le_add hnone hextra
  | _ => exact hpenalty

theorem run_cycles (i : Instruction) (r : Registers) (bus : σ) :
    i.cycles ≤ (i.run r bus).1 ∧ (i.run r bus).1 ≤ i.cycles + i.op.mostExtra := by
  have hrun : (i.run r bus).1 = i.cycles + indexPenalty i.op (resolve i.mode r bus).1 +
    (i.op.run (resolve i.mode r bus).1 (resolve i.mode r bus).2.1 (resolve i.mode r bus).2.2).1 := rfl
  have hextra := extra_le i.op (resolve i.mode r bus).1 (resolve i.mode r bus).2.1 (resolve i.mode r bus).2.2
  omega

/-! ### Steps -/

/-- The registers once the opcode has been fetched. -/
def fetched (r : Registers) : Registers := { r with pc := r.pc + 1 }

theorem step_none (h : decode (Bus.read bus cpu.registers.pc).1 = none) :
    cpu.step bus =
      (0, { cpu with registers := fetched cpu.registers }.noteUnsupported
        (Bus.read bus cpu.registers.pc).1 cpu.registers.pc, (Bus.read bus cpu.registers.pc).2) := by
  unfold step
  simp only [fetch, h]
  rfl

theorem step_some {i : Instruction} (h : decode (Bus.read bus cpu.registers.pc).1 = some i) :
    (cpu.step bus).1 = (i.run (fetched cpu.registers) (Bus.read bus cpu.registers.pc).2).1 := by
  unfold step
  simp only [fetch, h]
  rfl

/-- A step by what its instruction does. -/
theorem step_some_eq {i : Instruction} (h : decode (Bus.read bus cpu.registers.pc).1 = some i) :
    let done := i.run (fetched cpu.registers) (Bus.read bus cpu.registers.pc).2
    cpu.step bus = (done.1, { cpu with registers := done.2.1, cycles := cpu.cycles + done.1 }, done.2.2) := by
  unfold step
  simp only [fetch, h]
  rfl

theorem noteUnsupported_registers (cpu : Cpu) (opcode : UInt8) (address : UInt16) :
    (cpu.noteUnsupported opcode address).registers = cpu.registers := by
  unfold noteUnsupported
  split_ifs <;> rfl

theorem step_some_bounds {i : Instruction} (h : decode (Bus.read bus cpu.registers.pc).1 = some i) :
    2 ≤ (cpu.step bus).1 ∧ (cpu.step bus).1 ≤ 8 := by
  have hcycles := decode_cycles h
  have hrun := run_cycles i (fetched cpu.registers) (Bus.read bus cpu.registers.pc).2
  rw [step_some h]
  omega

/-- A step that takes no time passes over one byte. -/
theorem step_zero (h : (cpu.step bus).1 = 0) :
    (cpu.step bus).2.1.registers.pc = cpu.registers.pc + 1 := by
  cases hd : decode (Bus.read bus cpu.registers.pc).1 with
  | none =>
    rw [step_none hd, noteUnsupported_registers]
    rfl
  | some i =>
    have := step_some_bounds hd
    omega

theorem step_le (cpu : Cpu) (bus : σ) : (cpu.step bus).1 ≤ 8 := by
  cases hd : decode (Bus.read bus cpu.registers.pc).1 with
  | none =>
    rw [step_none hd]
    exact Nat.zero_le 8
  | some i => exact (step_some_bounds hd).2

theorem noteUnsupported_cycles (cpu : Cpu) (opcode : UInt8) (address : UInt16) :
    (cpu.noteUnsupported opcode address).cycles = cpu.cycles := by
  unfold noteUnsupported
  split_ifs <;> rfl

/-- The processor counts the cycles that it gives. -/
theorem step_counts (cpu : Cpu) (bus : σ) : (cpu.step bus).2.1.cycles = cpu.cycles + (cpu.step bus).1 := by
  cases hd : decode (Bus.read bus cpu.registers.pc).1 with
  | none =>
    rw [step_none hd]
    exact noteUnsupported_cycles _ _ _
  | some i =>
    unfold step
    simp only [fetch, hd]

/-! ### Interrupts -/

theorem nmi_masks (cpu : Cpu) (bus : σ) :
    (cpu.nmi bus).2.1.registers.flag Status.interruptDisable = true := by
  have hset (p : Status) : (p.assign Status.interruptDisable true).test Status.interruptDisable = true := by
    obtain ⟨⟨bits⟩⟩ := p
    revert bits
    decide +kernel
  exact hset _

theorem irq_masked (h : cpu.registers.flag Status.interruptDisable = true) (bus : σ) :
    cpu.irq bus = (0, cpu, bus) := if_pos h

theorem nmi_counts (cpu : Cpu) (bus : σ) : (cpu.nmi bus).2.1.cycles = cpu.cycles + (cpu.nmi bus).1 := rfl

theorem irq_counts (cpu : Cpu) (bus : σ) : (cpu.irq bus).2.1.cycles = cpu.cycles + (cpu.irq bus).1 := by
  unfold irq
  split_ifs <;> rfl

theorem irq_cycles_le (cpu : Cpu) (bus : σ) : (cpu.irq bus).1 ≤ 7 := by
  unfold irq
  split_ifs
  · exact Nat.zero_le 7
  · exact Nat.le_refl 7

/-- Only a masked interrupt takes no time, and it changes nothing. -/
theorem irq_zero (h : (cpu.irq bus).1 = 0) : cpu.irq bus = (0, cpu, bus) := by
  by_cases hm : cpu.registers.flag Status.interruptDisable = true
  · exact irq_masked hm bus
  · rw [irq, if_neg hm] at h
    exact absurd h (Nat.succ_ne_zero 6)

end Vic20.Cpu
