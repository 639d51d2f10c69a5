import Vic20.Proofs.Cpu.Flags
import Vic20.Proofs.Cpu.Transparent
import Vic20.Proofs.Machine.Interrupts

/-! The undocumented operations in terms of documented ones. Most are two of them, one after the other on the same
operand, for what the second sets of the flags the first has no part in. That takes a cell that gives back what is
written to it and that a read does not change, as it is the case for memory. -/

namespace Vic20

/-- A cell of memory: a read changes nothing and gives what was written. -/
structure Bus.Ram {σ : Type} [Bus σ] (bus : σ) (address : UInt16) : Prop where
  read : (Bus.read bus address).2 = bus
  write (v : UInt8) : Bus.read (Bus.write bus address v) address = (v, Bus.write bus address v)

theorem Flat.ram (ram : Flat) (address : UInt16) : Bus.Ram ram address where
  read := rfl
  write v := Prod.ext ((ram.get_put address address v).trans (if_pos rfl)) rfl

/-- The memory that every machine has, whatever is fitted. -/
def BuiltIn (address : UInt16) : Prop := address < 0x0400 ∨ 0x1000 ≤ address ∧ address < 0x2000

namespace BuiltIn

variable {address : UInt16} (h : BuiltIn address)

include h

theorem toNat : address.toNat < 0x0400 ∨ 0x1000 ≤ address.toNat ∧ address.toNat < 0x2000 := h

theorem chip : Board.Chip.ofAddress address = .memory := by
  have hbelow : address < 0x9000 := by
    rcases h.toNat with h | h <;> exact UInt16.lt_iff_toNat_lt.2 (show address.toNat < 0x9000 by omega)
  exact if_pos (.inl hbelow)

theorem read_write (m : Memory) (v : UInt8) : (m.write address v).read address = v := by
  have hplace := Place.at_ofAddress address
  unfold Memory.read Memory.write
  generalize Place.ofAddress address = p at hplace
  have hwhere := h.toNat
  cases hplace with
  | low | high => exact (Memory.read_write_block _ _ _ v).trans (if_pos rfl)
  | window slot hle =>
    unfold Place.start at hle
    split_ifs at hle <;> omega
  | _ => omega

theorem ram {σ : Type} (b : Board σ) : Bus.Ram b address where
  read := congrArg Prod.snd (b.read_memory h.chip)
  write v := by
    have hwrite : b.write address v = { b with memory := b.memory.write address v } := by
      unfold Board.write
      simp only [h.chip]
    change (b.write address v).read address = (v, b.write address v)
    rw [Board.read_memory _ h.chip, hwrite, h.read_write]

end BuiltIn

namespace Cpu

/-! ### Results that are set again -/

namespace Registers

variable (r : Registers) (v w : UInt8)

theorem compare_result (register : UInt8) : (r.result v).compare register w = r.compare register w := by
  unfold compare
  rw [result_setFlag _ _ rfl rfl, result_setFlag _ _ rfl rfl, result_result]

theorem subtractFlags_result : (r.result v).subtractFlags w = r.subtractFlags w := by
  have hdifference : (r.result v).difference w = r.difference w := by
    unfold difference
    rw [carry_result]
    rfl
  unfold subtractFlags
  rw [hdifference]
  dsimp only
  rw [Status.ofResult_assign rfl rfl, Status.ofResult_assign rfl rfl, Status.ofResult_assign rfl rfl,
    Status.ofResult_assign rfl rfl, result, Status.ofResult_ofResult]

theorem subtract_result : (r.result v).subtract w = r.subtract w := by
  have hmode : (r.result v).flag Status.decimal = r.flag Status.decimal := flag_result r v rfl rfl
  unfold subtract subtractDecimal subtractBinary
  rw [hmode, subtractFlags_result]
  unfold difference
  rw [carry_result]
  rfl

/-- To shift the accumulator sets all flags that loading it has set. -/
theorem shiftRight_setA :
    ({ ((r.setA v).shiftRight v).2 with a := w } : Registers) = { (r.shiftRight v).2 with a := w } := by
  simp only [shiftRight, setA, setFlag, result, Registers.mk.injEq, true_and]
  rw [Status.ofResult_assign rfl rfl, Status.ofResult_assign rfl rfl, Status.ofResult_ofResult]

/-- Carry as the sign of the last result. -/
def copySign : Registers := r.setFlag Status.carry (r.flag Status.negative)

theorem copySign_setA : (r.setA v).copySign = (r.setA v).setFlag Status.carry (v &&& 0x80 != 0) :=
  congrArg _ (Status.negative_ofResult v)

end Registers

/-! ### Operations on one operand -/

variable {σ : Type} [Bus σ]

/-- Registers and bus after an operation. -/
def Op.after (op : Op) (operand : Operand) (s : Registers × σ) : Registers × σ := (op.run operand s.1 s.2).2

/-- A change of a cell with a second operation on what has been written to it is the change, and then that operation. -/
theorem modify_composed {r : Registers} {bus : σ} {address : UInt16} (hram : Bus.Ram bus address) (crossed : Bool)
    {op first : ModifyOp} {second : ReadOp} (hfirst : ∀ r w, first.combine r w = r)
    (hbyte : ∀ r v, (op.change r v).1 = (first.change r v).1)
    (hsecond : ∀ r v, op.combine (op.change r v).2 (op.change r v).1 =
      second.apply (first.change r v).2 (first.change r v).1) :
    (Op.modify op).after (.address address crossed) (r, bus) =
      (Op.read second).after (.address address crossed)
        ((Op.modify first).after (.address address crossed) (r, bus)) := by
  simp only [Op.after, Op.run, Operand.load, Operand.store, hram.read, hfirst, hram.write, hbyte, ← hsecond]

/-- What the undocumented operations are made of, on a cell of memory and on a byte of the code. -/
structure Composed (s : Registers × σ) (address : UInt16) (crossed : Bool) (v : UInt8) : Prop where
  slo : (Op.modify .slo).after (.address address crossed) s =
    (Op.read .ora).after (.address address crossed) ((Op.modify .asl).after (.address address crossed) s)
  rla : (Op.modify .rla).after (.address address crossed) s =
    (Op.read .and).after (.address address crossed) ((Op.modify .rol).after (.address address crossed) s)
  sre : (Op.modify .sre).after (.address address crossed) s =
    (Op.read .eor).after (.address address crossed) ((Op.modify .lsr).after (.address address crossed) s)
  rra : (Op.modify .rra).after (.address address crossed) s =
    (Op.read .adc).after (.address address crossed) ((Op.modify .ror).after (.address address crossed) s)
  dcp : (Op.modify .dcp).after (.address address crossed) s =
    (Op.read .cmp).after (.address address crossed) ((Op.modify .dec).after (.address address crossed) s)
  isc : (Op.modify .isc).after (.address address crossed) s =
    (Op.read .sbc).after (.address address crossed) ((Op.modify .inc).after (.address address crossed) s)
  lax : (Op.read .lax).after (.address address crossed) s =
    (Op.register .tax).after .none ((Op.read .lda).after (.address address crossed) s)
  alr : (Op.read .alr).after (.immediate v) s =
    (Op.modify .lsr).after .accumulator ((Op.read .and).after (.immediate v) s)
  anc : (Op.read .anc).after (.immediate v) s =
    (((Op.read .and).after (.immediate v) s).1.copySign, ((Op.read .and).after (.immediate v) s).2)

theorem composed_of_ram {r : Registers} {bus : σ} {address : UInt16} (hram : Bus.Ram bus address) (crossed : Bool)
    (v : UInt8) : Composed (r, bus) address crossed v where
  slo := modify_composed hram crossed (fun _ _ => rfl) (fun _ _ => rfl) fun _ _ => rfl
  rla := modify_composed hram crossed (fun _ _ => rfl) (fun _ _ => rfl) fun _ _ => rfl
  sre := modify_composed hram crossed (fun _ _ => rfl) (fun _ _ => rfl) fun _ _ => rfl
  rra := modify_composed hram crossed (fun _ _ => rfl) (fun _ _ => rfl) fun _ _ => rfl
  -- the change sets negative and zero, which the second operation sets again
  dcp := by
    refine modify_composed hram crossed (fun _ _ => rfl) (fun _ _ => rfl) fun r v => ?_
    simp only [ModifyOp.combine, ModifyOp.change, ReadOp.apply]
    exact (r.compare_result (v - 1) (v - 1) r.a).symm
  isc := by
    refine modify_composed hram crossed (fun _ _ => rfl) (fun _ _ => rfl) fun r v => ?_
    simp only [ModifyOp.combine, ModifyOp.change, ReadOp.apply]
    exact (r.subtract_result (v + 1) (v + 1)).symm
  lax := by
    simp only [Op.after, Op.run, ReadOp.apply, RegisterOp.apply, Registers.setA, Registers.setX, Registers.result,
      Status.ofResult_ofResult]
  alr := by
    simp only [Op.after, Op.run, ReadOp.apply, ModifyOp.change, ModifyOp.combine, Operand.load, Operand.store]
    exact congrArg (·, bus) (r.shiftRight_setA (r.a &&& v) _).symm
  anc := by
    simp only [Op.after, Op.run, ReadOp.apply, Operand.load]
    rw [Registers.copySign_setA]

/-! ### Instructions -/

/-- The operations that are two on a cell of memory, and those that are so on a byte of the code. -/
def Op.onCell : Op → Bool
  | .modify .slo | .modify .rla | .modify .sre | .modify .rra | .modify .dcp | .modify .isc | .read .lax => true
  | _ => false

def Op.onConstant : Op → Bool
  | .read .alr | .read .anc => true
  | _ => false

/-- The modes that give a cell of memory. -/
def Mode.inMemory : Mode → Bool
  | .zeroPage | .zeroPageX | .zeroPageY | .absolute | .absoluteX | .absoluteY | .indexedIndirect
  | .indirectIndexed => true
  | _ => false

theorem decode_onCell {opcode : UInt8} {i : Instruction} (h : decode opcode = some i) :
    (i.op.onCell = true → i.mode.inMemory = true) ∧ (i.op.onConstant = true → i.mode = .immediate) := by
  have hall : ∀ v : BitVec 8, ∀ i ∈ decode ⟨v⟩,
      (i.op.onCell = true → i.mode.inMemory = true) ∧ (i.op.onConstant = true → i.mode = .immediate) := by
    decide +kernel
  exact hall opcode.toBitVec i h

theorem resolve_inMemory {mode : Mode} (h : mode.inMemory = true) (r : Registers) (bus : σ) :
    ∃ address crossed, (resolve mode r bus).1 = .address address crossed := by
  cases mode with
  | zeroPage | zeroPageX | zeroPageY | absolute | absoluteX | absoluteY | indexedIndirect | indirectIndexed =>
    exact ⟨_, _, rfl⟩
  | _ => cases h

/-- The undocumented operations leave the same registers, flags and memory as documented ones, on any cell of a plain
memory and on the built-in memory of a machine. An opcode runs one on its operand, which is a cell or, for two of
them, a byte of the code. -/
theorem undocumented_composed (r : Registers) (address : UInt16) (crossed : Bool) (v : UInt8) :
    (∀ ram : Flat, Composed (r, ram) address crossed v) ∧
    (∀ {σ : Type} (b : Board σ), BuiltIn address → Composed (r, b) address crossed v) ∧
    ∀ {σ : Type} [Bus σ] (cpu : Cpu) (bus : σ) (i : Instruction),
      decode (Bus.read bus cpu.registers.pc).1 = some i →
      let (operand, s) := resolve i.mode (fetched cpu.registers) (Bus.read bus cpu.registers.pc).2
      (i.op.onCell = true → ∃ address crossed, operand = .address address crossed) ∧
      (i.op.onConstant = true → ∃ v, operand = .immediate v) ∧
      ((cpu.step bus).2.1.registers, (cpu.step bus).2.2) = i.op.after operand s := by
  refine ⟨fun ram => composed_of_ram (ram.ram address) crossed v,
    fun b h => composed_of_ram (h.ram b) crossed v, ?_⟩
  intro σ _ cpu bus i hdecode
  obtain ⟨hcell, hconstant⟩ := decode_onCell hdecode
  refine ⟨fun h => resolve_inMemory (hcell h) _ _, fun h => ?_, ?_⟩
  · rw [hconstant h]
    exact ⟨_, rfl⟩
  · rw [step_some_eq hdecode]
    rfl

/-- The code of `isc` on a cell of the zero page. -/
def iscCode : Flat := (Flat.empty.put 0 0xE7).put 1 0x80

/-- A board with memory of zeros. -/
def blankBoard : Board Unit := { memory := .new ⟨.zero _, .zero _, .zero _⟩, drive := .new 8 }

theorem undocumented_composed_isc :
    let r : Registers := { Registers.powerOn with pc := 2 }
    decode (Bus.read iscCode 0).1 = some ⟨.modify .isc, .zeroPage, 5⟩ ∧ BuiltIn 0x80 ∧
      ((new.step iscCode).2.1.registers, (new.step iscCode).2.2) =
        (Op.read .sbc).after (.address 0x80 false)
          ((Op.modify .inc).after (.address 0x80 false) (r, iscCode)) ∧
      (Op.modify .isc).after (.address 0x80 false) (r, blankBoard) =
        (Op.read .sbc).after (.address 0x80 false)
          ((Op.modify .inc).after (.address 0x80 false) (r, blankBoard)) := by
  intro r
  have hopcode : (Bus.read iscCode 0).1 = 0xE7 :=
    (Flat.get_put ..).trans ((if_neg (by decide)).trans ((Flat.get_put ..).trans (if_pos rfl)))
  have hdecode : decode (Bus.read iscCode 0).1 = some ⟨.modify .isc, .zeroPage, 5⟩ := by
    rw [hopcode]
    rfl
  have hoperand : (Bus.read iscCode 1).1 = 0x80 := (Flat.get_put ..).trans (if_pos rfl)
  have hresolve : resolve .zeroPage (fetched .powerOn) iscCode = (.address 0x80 false, r, iscCode) := by
    change (Operand.address (Bus.read iscCode 1).1.toUInt16 false, _) = _
    rw [hoperand]
    rfl
  have hbuiltin : BuiltIn 0x80 := .inl (by decide)
  obtain ⟨hflat, hboard, hstep⟩ := undocumented_composed r 0x80 false 0
  have hrun : ((new.step iscCode).2.1.registers, (new.step iscCode).2.2) =
      (Op.modify .isc).after (resolve .zeroPage (fetched .powerOn) iscCode).1
        (resolve .zeroPage (fetched .powerOn) iscCode).2 := (hstep new iscCode _ hdecode).2.2
  refine ⟨hdecode, hbuiltin, ?_, (hboard blankBoard hbuiltin).isc⟩
  rw [hrun, hresolve]
  exact (hflat iscCode).isc

end Cpu
end Vic20
