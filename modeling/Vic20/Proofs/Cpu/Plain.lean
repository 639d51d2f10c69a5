import Vic20.Proofs.Cpu.Cycles

/-! The flags that the processor keeps. The break and unused bits are set in the copies that it pushes and
dropped from those that it pulls, so the status register itself never has them, whatever is on the bus. -/

namespace Vic20.Cpu

namespace Status

variable {p : Status} {mask : UInt8}

/-- The bits that exist only on the stack. -/
def stacked : UInt8 := brk ||| unused

/-- Neither of the bits that exist only on the stack is set. -/
def Plain (p : Status) : Prop := p.bits &&& stacked = 0

theorem or_and (a b c : UInt8) : (a ||| b) &&& c = a &&& c ||| b &&& c :=
  UInt8.eq_of_toBitVec_eq BitVec.and_or_distrib_right

theorem Plain.assign (h : p.Plain) (hmask : mask &&& stacked = 0) (on : Bool) : (p.assign mask on).Plain := by
  cases on with
  | true => exact (or_and p.bits mask stacked).trans (UInt8.or_eq_zero_iff.mpr ⟨h, hmask⟩)
  | false =>
    change p.bits &&& ~~~mask &&& stacked = 0
    rw [UInt8.and_assoc, UInt8.and_comm (~~~mask), ← UInt8.and_assoc, h, UInt8.zero_and]

theorem Plain.ofResult (h : p.Plain) (v : UInt8) : (p.ofResult v).Plain := (h.assign rfl _).assign rfl _

theorem plain_pulled (v : UInt8) : (pulled v).Plain := by
  change v &&& ~~~stacked &&& stacked = 0
  rw [UInt8.and_assoc, show ~~~stacked &&& stacked = 0 from rfl, UInt8.and_zero]

/-- What an interrupt pushes is pulled as it was. -/
theorem Plain.pulled_pushedByInterrupt (h : p.Plain) : pulled p.pushedByInterrupt = p := by
  obtain ⟨⟨bits⟩⟩ := p
  revert bits
  unfold Plain
  decide +kernel

end Status

/-! ### Arithmetic -/

namespace Registers

variable {r : Registers} (h : r.p.Plain) (v : UInt8)

include h

theorem plain_add : (r.add v).p.Plain := by
  unfold add addDecimal addBinary
  split
  · exact (((h.assign rfl _).assign rfl _).assign rfl _).assign rfl _
  · exact ((h.assign rfl _).assign rfl _).ofResult _

theorem plain_subtract : (r.subtract v).p.Plain := by
  have hflags : (r.subtractFlags v).Plain := ((h.assign rfl _).assign rfl _).ofResult _
  unfold subtract
  split
  · exact hflags
  · exact hflags

theorem plain_compare (register : UInt8) : (r.compare register v).p.Plain := (h.assign rfl _).ofResult _

theorem plain_shiftLeft : (r.shiftLeft v).2.p.Plain := (h.assign rfl _).ofResult _

theorem plain_shiftRight : (r.shiftRight v).2.p.Plain := (h.assign rfl _).ofResult _

theorem plain_rotateLeft : (r.rotateLeft v).2.p.Plain := (h.assign rfl _).ofResult _

theorem plain_rotateRight : (r.rotateRight v).2.p.Plain := (h.assign rfl _).ofResult _

theorem plain_bitTest : (r.bitTest v).p.Plain := ((h.assign rfl _).assign rfl _).assign rfl _

theorem plain_andRotate : (r.andRotate v).p.Plain := ((h.ofResult _).assign rfl _).assign rfl _

theorem plain_subtractFromAX : (r.subtractFromAX v).p.Plain := (h.assign rfl _).ofResult _

end Registers

/-! ### Operations -/

section Operations

variable {r : Registers} (h : r.p.Plain)

include h

theorem plain_read (op : ReadOp) (v : UInt8) : (op.apply r v).p.Plain := by
  cases op with
  | lda | ldx | ldy | lax | and | ora | eor => exact h.ofResult _
  | adc => exact Registers.plain_add h v
  | sbc => exact Registers.plain_subtract h v
  | cmp | cpx | cpy => exact Registers.plain_compare h v _
  | bit => exact Registers.plain_bitTest h v
  | anc => exact (h.ofResult _).assign rfl _
  | alr => exact Registers.plain_shiftRight h _
  | arr => exact Registers.plain_andRotate h v
  | sbx => exact Registers.plain_subtractFromAX h v

theorem plain_change (op : ModifyOp) (v : UInt8) : (op.change r v).2.p.Plain := by
  cases op with
  | asl | slo => exact Registers.plain_shiftLeft h v
  | lsr | sre => exact Registers.plain_shiftRight h v
  | rol | rla => exact Registers.plain_rotateLeft h v
  | ror | rra => exact Registers.plain_rotateRight h v
  | inc | dec => exact h.ofResult _
  | isc | dcp => exact h

theorem plain_combine (op : ModifyOp) (w : UInt8) : (op.combine r w).p.Plain := by
  cases op with
  | slo | sre | rla => exact h.ofResult _
  | rra => exact Registers.plain_add h w
  | isc => exact Registers.plain_subtract h w
  | dcp => exact Registers.plain_compare h w r.a
  | asl | lsr | rol | ror | inc | dec => exact h

theorem plain_register (op : RegisterOp) : (op.apply r).p.Plain := by
  cases op with
  | tax | tay | txa | tya | tsx | inx | iny | dex | dey => exact h.ofResult _
  | txs => exact h
  | clc | sec | cli | sei | cld | sed | clv => exact h.assign rfl _

variable {σ : Type} [Bus σ] (bus : σ)

theorem plain_enterHandler (back : UInt16) (status : UInt8) (vector : UInt16) :
    (enterHandler r bus back status vector).1.p.Plain := h.assign rfl _

theorem plain_control (op : ControlOp) (operand : Operand) : (op.run operand r bus).1.p.Plain := by
  cases op with
  | jmp | jsr => cases operand <;> exact h
  | rts | pha | php => exact h
  | rti | plp => exact Status.plain_pulled _
  | brk => exact plain_enterHandler h bus _ _ _
  | pla => exact h.ofResult _

theorem plain_store (operand : Operand) (v : UInt8) : (operand.store r bus v).1.p.Plain := by
  cases operand <;> exact h

theorem plain_op (op : Op) (operand : Operand) : (op.run operand r bus).2.1.p.Plain := by
  cases op with
  | read op => exact plain_read h op _
  | store op => exact plain_store h bus operand _
  | modify op => exact plain_combine (plain_store (plain_change h op _) _ operand _) op _
  | register op => exact plain_register h op
  | branch op =>
    cases operand with
    | branch target crossed =>
      unfold Op.run
      dsimp only
      split_ifs <;> exact h
    | _ => exact h
  | control op => exact plain_control h bus op operand
  | nop => exact h

theorem plain_resolve (mode : Mode) : (resolve mode r bus).2.1.p.Plain := by
  cases mode <;> exact h

theorem plain_run (i : Instruction) : (i.run r bus).2.1.p.Plain := plain_op (plain_resolve h bus i.mode) _ i.op _

end Operations

/-! ### Runs -/

variable {σ : Type} [Bus σ] {cpu : Cpu}

theorem plain_step (h : cpu.registers.p.Plain) (bus : σ) : (cpu.step bus).2.1.registers.p.Plain := by
  unfold step
  dsimp only
  split
  · rw [noteUnsupported_registers]
    exact h
  · next i _ => exact plain_run (r := fetched cpu.registers) h _ i

theorem plain_interrupt (h : cpu.registers.p.Plain) (bus : σ) (vector : UInt16) :
    (cpu.interrupt bus vector).2.1.registers.p.Plain := plain_enterHandler h bus _ _ vector

/-- What a processor can become. Each time it can be on another bus. -/
inductive Reachable : Cpu → Prop
  | new : Reachable .new
  | step {cpu : Cpu} {σ : Type} [Bus σ] (bus : σ) : Reachable cpu → Reachable (cpu.step bus).2.1
  | irq {cpu : Cpu} {σ : Type} [Bus σ] (bus : σ) : Reachable cpu → Reachable (cpu.irq bus).2.1
  | nmi {cpu : Cpu} {σ : Type} [Bus σ] (bus : σ) : Reachable cpu → Reachable (cpu.nmi bus).2.1
  | reset {cpu : Cpu} {σ : Type} [Bus σ] (bus : σ) : Reachable cpu → Reachable (cpu.reset bus).2.1

theorem Reachable.plain (h : Reachable cpu) : cpu.registers.p.Plain := by
  induction h with
  | new => rfl
  | step bus _ ih => exact plain_step ih bus
  | @irq cpu _ _ bus _ ih =>
    unfold Cpu.irq
    split_ifs
    · exact ih
    · exact plain_interrupt ih bus irqVector
  | nmi bus _ ih => exact plain_interrupt ih bus nmiVector
  | reset => exact (rfl : Registers.powerOn.p.Plain)

end Vic20.Cpu
