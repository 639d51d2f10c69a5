import Vic20.Program.Pointers
import Vic20.Program.Prg
import Vic20.Proofs.Cpu.Cycles

/-! Maps of buses. A map that respects every access commutes with all that the processor does, since it reaches
the bus by accesses alone. Two buses that accesses cannot tell apart are run side by side as one bus, of which
each is an image. So the processor cannot tell them apart either. -/

namespace Vic20

/-- A map of buses that respects reads and writes. -/
structure Bus.Hom {σ τ : Type} [Bus σ] [Bus τ] (φ : σ → τ) : Prop where
  read (bus : σ) (address : UInt16) :
    Bus.read (φ bus) address = ((Bus.read bus address).1, φ (Bus.read bus address).2)
  write (bus : σ) (address : UInt16) (v : UInt8) : Bus.write (φ bus) address v = φ (Bus.write bus address v)

namespace Bus.Hom

open Cpu

variable {σ τ : Type} [Bus σ] [Bus τ] {φ : σ → τ} (hφ : Bus.Hom φ) (r : Registers) (bus : σ)

include hφ

theorem fetch : fetch r (φ bus) = ((fetch r bus).1, (fetch r bus).2.1, φ (fetch r bus).2.2) := by
  simp only [Cpu.fetch, hφ.read]

theorem fetchWord :
    fetchWord r (φ bus) = ((fetchWord r bus).1, (fetchWord r bus).2.1, φ (fetchWord r bus).2.2) := by
  simp only [Cpu.fetchWord, hφ.fetch]

theorem readWord (address : UInt16) :
    readWord (φ bus) address = ((readWord bus address).1, φ (readWord bus address).2) := by
  simp only [Cpu.readWord, hφ.read]

theorem readPointer (address : UInt16) :
    readPointer (φ bus) address = ((readPointer bus address).1, φ (readPointer bus address).2) := by
  simp only [Cpu.readPointer, hφ.read]

theorem push (v : UInt8) : push r (φ bus) v = ((push r bus v).1, φ (push r bus v).2) := by
  simp only [Cpu.push, hφ.write]

theorem pushWord (w : UInt16) : pushWord r (φ bus) w = ((pushWord r bus w).1, φ (pushWord r bus w).2) := by
  simp only [Cpu.pushWord, hφ.push]

theorem pull : pull r (φ bus) = ((pull r bus).1, (pull r bus).2.1, φ (pull r bus).2.2) := by
  simp only [Cpu.pull, hφ.read]

theorem pullWord :
    pullWord r (φ bus) = ((pullWord r bus).1, (pullWord r bus).2.1, φ (pullWord r bus).2.2) := by
  simp only [Cpu.pullWord, hφ.pull]

theorem resolve (mode : Mode) :
    resolve mode r (φ bus) = ((resolve mode r bus).1, (resolve mode r bus).2.1, φ (resolve mode r bus).2.2) := by
  cases mode <;> simp only [Cpu.resolve, hφ.fetch, hφ.fetchWord, hφ.readPointer]

theorem load (operand : Operand) :
    operand.load r (φ bus) = ((operand.load r bus).1, φ (operand.load r bus).2) := by
  cases operand <;> simp only [Operand.load, hφ.read]

theorem store (operand : Operand) (v : UInt8) :
    operand.store r (φ bus) v = ((operand.store r bus v).1, φ (operand.store r bus v).2) := by
  cases operand <;> simp only [Operand.store, hφ.write]

theorem enterHandler (back : UInt16) (status : UInt8) (vector : UInt16) :
    enterHandler r (φ bus) back status vector =
      ((enterHandler r bus back status vector).1, φ (enterHandler r bus back status vector).2) := by
  simp only [Cpu.enterHandler, hφ.pushWord, hφ.push, hφ.readWord]

theorem control (op : ControlOp) (operand : Operand) :
    op.run operand r (φ bus) = ((op.run operand r bus).1, φ (op.run operand r bus).2) := by
  cases op <;> cases operand <;>
    simp only [ControlOp.run, hφ.pushWord, hφ.pullWord, hφ.pull, hφ.push, hφ.enterHandler]

theorem op (op : Op) (operand : Operand) :
    op.run operand r (φ bus) =
      ((op.run operand r bus).1, (op.run operand r bus).2.1, φ (op.run operand r bus).2.2) := by
  cases op with
  | read | store | modify | register | control | nop =>
    simp only [Op.run, hφ.load, hφ.store, hφ.control]
  | branch op =>
    cases operand with
    | branch target crossed =>
      unfold Op.run
      dsimp only
      split <;> rfl
    | _ => rfl

theorem run (i : Instruction) :
    i.run r (φ bus) = ((i.run r bus).1, (i.run r bus).2.1, φ (i.run r bus).2.2) := by
  simp only [Instruction.run, hφ.resolve, hφ.op]

variable (cpu : Cpu)

theorem step : cpu.step (φ bus) = ((cpu.step bus).1, (cpu.step bus).2.1, φ (cpu.step bus).2.2) := by
  simp only [Cpu.step, hφ.fetch]
  split
  · rfl
  · rw [hφ.run]

theorem reset : cpu.reset (φ bus) = ((cpu.reset bus).1, (cpu.reset bus).2.1, φ (cpu.reset bus).2.2) := by
  simp only [Cpu.reset, hφ.readWord]

theorem interrupt (vector : UInt16) :
    cpu.interrupt (φ bus) vector =
      ((cpu.interrupt bus vector).1, (cpu.interrupt bus vector).2.1, φ (cpu.interrupt bus vector).2.2) := by
  simp only [Cpu.interrupt, hφ.enterHandler]

theorem irq : cpu.irq (φ bus) = ((cpu.irq bus).1, (cpu.irq bus).2.1, φ (cpu.irq bus).2.2) := by
  unfold Cpu.irq
  split
  · rfl
  · exact hφ.interrupt bus cpu irqVector

theorem nmi : cpu.nmi (φ bus) = ((cpu.nmi bus).1, (cpu.nmi bus).2.1, φ (cpu.nmi bus).2.2) :=
  hφ.interrupt bus cpu nmiVector

end Bus.Hom

/-! ### Putting programs into memory -/

namespace Bus.Hom

open Program

variable {σ τ : Type} [Bus σ] [Bus τ] {φ : σ → τ} (hφ : Bus.Hom φ) (bus : σ)

include hφ

theorem writeAll (address : UInt16) (vs : List UInt8) :
    writeAll (φ bus) address vs = φ (writeAll bus address vs) := by
  induction vs generalizing bus address with
  | nil => rfl
  | cons v vs ih => rw [Bus.writeAll, Bus.writeAll, hφ.write, ih]

theorem peekWord (address : UInt16) :
    peekWord (φ bus) address = ((peekWord bus address).1, φ (peekWord bus address).2) := by
  simp only [Program.peekWord, hφ.read]

theorem pokeWord (address w : UInt16) : pokeWord (φ bus) address w = φ (pokeWord bus address w) :=
  hφ.writeAll bus address (wordBytes w)

theorem setEnd (length : Nat) : setEnd (φ bus) length = ((setEnd bus length).1, φ (setEnd bus length).2) := by
  simp only [Program.setEnd, endPointers, List.foldl_cons, List.foldl_nil, hφ.peekWord, hφ.pokeWord]

end Bus.Hom

/-! ### Buses that agree -/

/-- Accesses cannot tell related buses apart. -/
class Bus.Agrees {σ : Type} [Bus σ] (R : σ → σ → Prop) : Prop where
  value {b c : σ} (h : R b c) (address : UInt16) : (Bus.read b address).1 = (Bus.read c address).1
  read {b c : σ} (h : R b c) (address : UInt16) : R (Bus.read b address).2 (Bus.read c address).2
  write {b c : σ} (h : R b c) (address : UInt16) (v : UInt8) : R (Bus.write b address v) (Bus.write c address v)

/-- Related buses side by side. -/
structure Bus.Pair {σ : Type} (R : σ → σ → Prop) where
  left : σ
  right : σ
  related : R left right

namespace Bus.Pair

variable {σ : Type} [Bus σ] {R : σ → σ → Prop} [hR : Bus.Agrees R]

/-- An access is made to both. -/
instance : Bus (Pair R) where
  read p address :=
    ((Bus.read p.left address).1,
      ⟨(Bus.read p.left address).2, (Bus.read p.right address).2, hR.read p.related address⟩)
  write p address v := ⟨Bus.write p.left address v, Bus.write p.right address v, hR.write p.related address v⟩

theorem left_hom : Bus.Hom (left : Pair R → σ) := ⟨fun _ _ => rfl, fun _ _ _ => rfl⟩

theorem right_hom : Bus.Hom (right : Pair R → σ) where
  read p address := Prod.ext (hR.value p.related address).symm rfl
  write _ _ _ := rfl

end Bus.Pair

/-- Results that cannot be told apart: the same value, and related states. -/
structure SameResult {α σ : Type} (R : σ → σ → Prop) (p q : α × σ) : Prop where
  value : p.1 = q.1
  state : R p.2 q.2

namespace SameResult

variable {α β σ : Type} {R : σ → σ → Prop}

theorem pair {s t : σ} (h : R s t) (a : α) : SameResult R (a, s) (a, t) := ⟨rfl, h⟩

theorem map {p q : α × σ} (h : SameResult R p q) (f : α → β) : SameResult R (f p.1, p.2) (f q.1, q.2) :=
  ⟨congrArg f h.value, h.state⟩

end SameResult

namespace Cpu

/-- Processors with the same registers, on related buses. The count of cycles and the opcodes met do not matter
to what a processor does. -/
structure Twin {σ : Type} (R : σ → σ → Prop) (p q : Cpu × σ) : Prop where
  registers : p.1.registers = q.1.registers
  bus : R p.2 q.2

variable {σ : Type} [Bus σ] {R : σ → σ → Prop} {b c : σ} {p q : Cpu} (hr : p.registers = q.registers)

section Registers

variable (bus : σ)

include hr

/-- What an instruction does depends on the registers alone. -/
theorem step_same : SameResult (Twin Eq) (p.step bus) (q.step bus) := by
  unfold step
  rw [hr]
  dsimp only
  split
  · exact ⟨rfl, by simp only [noteUnsupported_registers], rfl⟩
  · exact ⟨rfl, rfl, rfl⟩

theorem interrupt_same (vector : UInt16) :
    SameResult (Twin Eq) (p.interrupt bus vector) (q.interrupt bus vector) := by
  unfold interrupt
  rw [hr]
  exact ⟨rfl, rfl, rfl⟩

theorem irq_same : SameResult (Twin Eq) (p.irq bus) (q.irq bus) := by
  unfold irq
  rw [hr]
  split
  · exact ⟨rfl, hr, rfl⟩
  · exact interrupt_same hr bus irqVector

end Registers

/-- Whatever the registers were, they start from the vector. -/
theorem reset_same (p q : Cpu) (bus : σ) : SameResult (Twin Eq) (p.reset bus) (q.reset bus) := ⟨rfl, rfl, rfl⟩

omit [Bus σ] in
/-- What is done to both buses side by side, seen from each of them. -/
theorem sameResult_of_pair {α : Type} {x y : α × Cpu × Bus.Pair R} (h : SameResult (Twin Eq) x y) :
    SameResult (Twin R) (x.1, x.2.1, x.2.2.left) (y.1, y.2.1, y.2.2.right) :=
  ⟨h.value, h.state.registers, h.state.bus ▸ x.2.2.related⟩

end Cpu

namespace Bus.Pair

variable {σ : Type} [Bus σ] {R : σ → σ → Prop} [Bus.Agrees R] (w : Bus.Pair R) {p q : Cpu}

theorem step (hr : p.registers = q.registers) : SameResult (Cpu.Twin R) (p.step w.left) (q.step w.right) := by
  rw [left_hom.step, right_hom.step]
  exact Cpu.sameResult_of_pair (Cpu.step_same hr w)

theorem irq (hr : p.registers = q.registers) : SameResult (Cpu.Twin R) (p.irq w.left) (q.irq w.right) := by
  rw [left_hom.irq, right_hom.irq]
  exact Cpu.sameResult_of_pair (Cpu.irq_same hr w)

theorem nmi (hr : p.registers = q.registers) : SameResult (Cpu.Twin R) (p.nmi w.left) (q.nmi w.right) := by
  rw [left_hom.nmi, right_hom.nmi]
  exact Cpu.sameResult_of_pair (Cpu.interrupt_same hr w Cpu.nmiVector)

theorem reset (p q : Cpu) : SameResult (Cpu.Twin R) (p.reset w.left) (q.reset w.right) := by
  rw [left_hom.reset, right_hom.reset]
  exact Cpu.sameResult_of_pair (Cpu.reset_same p q w)

theorem writeAll (address : UInt16) (vs : List UInt8) :
    R (Bus.writeAll w.left address vs) (Bus.writeAll w.right address vs) := by
  rw [left_hom.writeAll, right_hom.writeAll]
  exact (Bus.writeAll w address vs).related

theorem setEnd (length : Nat) :
    SameResult R (Program.setEnd w.left length) (Program.setEnd w.right length) := by
  rw [left_hom.setEnd, right_hom.setEnd]
  exact ⟨rfl, (Program.setEnd w length).2.related⟩

end Bus.Pair
end Vic20
