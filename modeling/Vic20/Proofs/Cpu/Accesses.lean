import Vic20.Bus.Trace
import Vic20.Proofs.Cpu.Hom

/-! What an instruction does on the bus. The accesses follow from the opcode: the bytes of the operand, the two
bytes of a pointer, and then what the operation does with its operand or with the stack. There are no others,
and never more of them than cycles. -/

namespace Vic20

open Bus

namespace Traced

variable {σ : Type} [Bus σ] {t u v : Traced σ} {made more : List Access}

/-- A bus of which nothing has been recorded. -/
def anew (bus : σ) : Traced σ := { bus }

/-- Recording is not noticed by what uses the bus. -/
theorem bus_hom : Bus.Hom (Traced.bus : Traced σ → σ) := ⟨fun _ _ => rfl, fun _ _ _ => rfl⟩

/-- The accesses made from one state of the bus to another. -/
def Makes (t : Traced σ) (made : List Access) (u : Traced σ) : Prop :=
  u.accesses.toList = t.accesses.toList ++ made

omit [Bus σ] in
theorem Makes.refl (t : Traced σ) : t.Makes [] t := (List.append_nil _).symm

omit [Bus σ] in
theorem Makes.trans (h : t.Makes made u) (h' : u.Makes more v) : t.Makes (made ++ more) v := by
  rw [Makes, h', h, List.append_assoc]

theorem makes_read (t : Traced σ) (address : UInt16) :
    t.Makes [.read address (Bus.read t address).1] (Bus.read t address).2 := Array.toList_push

theorem makes_write (t : Traced σ) (address : UInt16) (v : UInt8) :
    t.Makes [.write address v] (Bus.write t address v) := Array.toList_push

end Traced

namespace Cpu

/-- How many bytes of operand follow the opcode. -/
def Mode.length : Mode → Nat
  | implied | accumulator => 0
  | immediate | zeroPage | zeroPageX | zeroPageY | indexedIndirect | indirectIndexed | relative => 1
  | absolute | absoluteX | absoluteY | indirect => 2

/-- The bytes of an operand, and those of the pointer that it gives. -/
structure OperandBytes where
  first : UInt8
  second : UInt8
  low : UInt8
  high : UInt8

/-- The bytes that an operation reads, in order. -/
structure TakenBytes where
  first : UInt8
  second : UInt8
  third : UInt8

/-- The address after another, within the page. -/
def nextInPage (address : UInt16) : UInt16 := word (lowByte address + 1) (highByte address)

namespace Mode

variable (mode : Mode) (r : Registers) (given : OperandBytes)

def operandReads : List Access :=
  [.read (r.pc + 1) given.first, .read (r.pc + 2) given.second].take mode.length

/-- The address of the pointer. -/
def pointer? : Option UInt16 :=
  match mode with
  | indexedIndirect => some (given.first + r.x).toUInt16
  | indirectIndexed => some given.first.toUInt16
  | indirect => some (word given.first given.second)
  | _ => none

def pointerReads : List Access :=
  match mode.pointer? r given with
  | some p => [.read p given.low, .read (nextInPage p) given.high]
  | none => []

/-- The effective address of an operand in memory. -/
def target? : Option UInt16 :=
  match mode with
  | zeroPage => some given.first.toUInt16
  | zeroPageX => some (given.first + r.x).toUInt16
  | zeroPageY => some (given.first + r.y).toUInt16
  | absolute => some (word given.first given.second)
  | absoluteX => some (word given.first given.second + r.x.toUInt16)
  | absoluteY => some (word given.first given.second + r.y.toUInt16)
  | indexedIndirect | indirect => some (word given.low given.high)
  | indirectIndexed => some (word given.low given.high + r.y.toUInt16)
  | implied | accumulator | immediate | relative => none

end Mode

/-- Bytes pushed, from the stack pointer downwards. -/
def pushes (s : UInt8) : List UInt8 → List Access
  | [] => []
  | v :: vs => .write (Registers.stackAddress s) v :: pushes (s - 1) vs

/-- Bytes pulled, from above the stack pointer upwards. -/
def pulls (s : UInt8) : List UInt8 → List Access
  | [] => []
  | v :: vs => .read (Registers.stackAddress (s + 1)) v :: pulls (s + 1) vs

/-- The stack operations. `back` is the address that BRK and JSR push. -/
def ControlOp.accesses (op : ControlOp) (r : Registers) (back : UInt16) (taken : TakenBytes) : List Access :=
  match op with
  | .jmp => []
  | .jsr => pushes r.s [highByte back, lowByte back]
  | .rts => pulls r.s [taken.first, taken.second]
  | .rti => pulls r.s [taken.first, taken.second, taken.third]
  | .brk => pushes r.s [highByte back, lowByte back, r.p.pushedByBreak] ++
      [.read irqVector taken.first, .read (irqVector + 1) taken.second]
  | .pha => pushes r.s [r.a]
  | .php => pushes r.s [r.p.pushedByBreak]
  | .pla | .plp => pulls r.s [taken.first]

/-- What an operation does beyond its operand bytes, with its operand in memory at `target?` or elsewhere. -/
def Op.accesses (op : Op) (r : Registers) (target? : Option UInt16) (taken : TakenBytes) : List Access :=
  match op, target? with
  | .read _, some a => [.read a taken.first]
  | .store op, some a => [.write a (op.byte r)]
  | .modify op, some a => [.read a taken.first, .write a (op.change r taken.first).1]
  | .control op, _ => op.accesses r (r.pc + 2) taken
  | .read _, none | .store _, none | .modify _, none => []
  | .register _, _ | .branch _, _ | .nop, _ => []

/-- All accesses of an instruction but the fetch of its opcode. -/
def Instruction.accesses (i : Instruction) (r : Registers) (given : OperandBytes) (taken : TakenBytes) :
    List Access :=
  i.mode.operandReads r given ++ i.mode.pointerReads r given ++ i.op.accesses r (i.mode.target? r given) taken

/-! ### Operands -/

theorem and_high (a : UInt16) : a &&& 0xFF00 = (highByte a).toUInt16 <<< (8 : UInt16) := by
  have hmask (n : Nat) : n &&& 0xFF00 = (n >>> 8 &&& 0xFF) <<< 8 := by
    refine Nat.eq_of_testBit_eq fun i => ?_
    rw [show (0xFF00 : Nat) = 0xFF <<< 8 from rfl]
    simp only [Nat.testBit_and, Nat.testBit_shiftLeft, Nat.testBit_shiftRight]
    by_cases h : 8 ≤ i <;> simp [h]
  have hlow : a.toNat >>> 8 &&& 0xFF = a.toNat >>> 8 % 256 := Nat.and_two_pow_sub_one_eq_mod _ 8
  apply UInt16.toNat.inj
  refine (UInt16.toNat_and a 0xFF00).trans ((hmask a.toNat).trans ?_)
  have hlt : (a.toNat >>> 8 % 256) <<< 8 < 65536 := by rw [Nat.shiftLeft_eq]; omega
  simp [highByte, hlow, Nat.mod_eq_of_lt hlt]

theorem and_low (a : UInt16) : a &&& 0x00FF = (lowByte a).toUInt16 := by
  have hlow : a.toNat &&& 0xFF = a.toNat % 256 := Nat.and_two_pow_sub_one_eq_mod _ 8
  apply UInt16.toNat.inj
  exact (UInt16.toNat_and a 0x00FF).trans (by simp [lowByte, hlow])

theorem nextInPage_eq (a : UInt16) : a &&& 0xFF00 ||| (a + 1) &&& 0x00FF = nextInPage a := by
  have hnext : lowByte (a + 1) = lowByte a + 1 := UInt16.toUInt8_add a 1
  rw [and_high, and_low, hnext, nextInPage, word, UInt16.or_comm]

section Operands

variable {σ : Type} [Bus σ] (r : Registers) (t : Traced σ)

theorem fetch_makes : ∃ v u,
    fetch (fetched r) t = (v, { r with pc := r.pc + 2 }, u) ∧ t.Makes [.read (r.pc + 1) v] u := by
  refine ⟨_, _, ?_, t.makes_read (r.pc + 1)⟩
  simp only [fetch, fetched, UInt16.add_assoc]
  rfl

theorem fetchWord_makes : ∃ first second u,
    fetchWord (fetched r) t = (word first second, { r with pc := r.pc + 3 }, u) ∧
      t.Makes [.read (r.pc + 1) first, .read (r.pc + 2) second] u := by
  obtain ⟨first, u, hfirst, hu⟩ := fetch_makes r t
  refine ⟨first, _, _, ?_, hu.trans (u.makes_read (r.pc + 2))⟩
  rw [fetchWord, hfirst]
  simp only [fetch, UInt16.add_assoc]
  rfl

theorem readPointer_makes (p : UInt16) : ∃ low high u,
    readPointer t p = (word low high, u) ∧ t.Makes [.read p low, .read (nextInPage p) high] u := by
  refine ⟨_, _, _, ?_, (t.makes_read p).trans (Traced.makes_read _ (nextInPage p))⟩
  simp only [readPointer, nextInPage_eq]

/-- Where an operand is in memory. -/
def Operand.target? : Operand → Option UInt16
  | address target _ => some target
  | _ => Option.none

/-- A mode reads its operand bytes and its pointer, and nothing else. -/
theorem resolve_makes (mode : Mode) : ∃ given operand u,
    resolve mode (fetched r) t = (operand, { r with pc := r.pc + UInt16.ofNat (mode.length + 1) }, u) ∧
      operand.target? = mode.target? r given ∧
      t.Makes (mode.operandReads r given ++ mode.pointerReads r given) u := by
  cases mode with
  | implied | accumulator => exact ⟨⟨0, 0, 0, 0⟩, _, t, rfl, rfl, .refl t⟩
  | immediate | zeroPage | zeroPageX | zeroPageY | relative =>
    obtain ⟨v, u, hfetch, hu⟩ := fetch_makes r t
    exact ⟨⟨v, 0, 0, 0⟩, _, u, by simp only [resolve, hfetch]; rfl, rfl, hu⟩
  | absolute | absoluteX | absoluteY =>
    obtain ⟨first, second, u, hfetch, hu⟩ := fetchWord_makes r t
    exact ⟨⟨first, second, 0, 0⟩, _, u, by simp only [resolve, hfetch]; rfl, rfl, hu⟩
  | indexedIndirect =>
    obtain ⟨v, u, hfetch, hu⟩ := fetch_makes r t
    obtain ⟨low, high, w, hpointer, hw⟩ := readPointer_makes u (v + r.x).toUInt16
    exact ⟨⟨v, 0, low, high⟩, _, w, by simp only [resolve, hfetch, hpointer]; rfl, rfl, hu.trans hw⟩
  | indirectIndexed =>
    obtain ⟨v, u, hfetch, hu⟩ := fetch_makes r t
    obtain ⟨low, high, w, hpointer, hw⟩ := readPointer_makes u v.toUInt16
    exact ⟨⟨v, 0, low, high⟩, _, w, by simp only [resolve, hfetch, hpointer]; rfl, rfl, hu.trans hw⟩
  | indirect =>
    obtain ⟨first, second, u, hfetch, hu⟩ := fetchWord_makes r t
    obtain ⟨low, high, w, hpointer, hw⟩ := readPointer_makes u (word first second)
    exact ⟨⟨first, second, low, high⟩, _, w, by simp only [resolve, hfetch, hpointer]; rfl, rfl, hu.trans hw⟩

end Operands

/-! ### Operations -/

section Operations

variable {σ : Type} [Bus σ] (r : Registers) (t : Traced σ)

theorem pushWord_makes (w : UInt16) : t.Makes (pushes r.s [highByte w, lowByte w]) (pushWord r t w).2 :=
  (t.makes_write _ _).trans (Traced.makes_write _ _ _)

theorem pullWord_makes : ∃ low high, t.Makes (pulls r.s [low, high]) (pullWord r t).2.2 :=
  ⟨_, _, (t.makes_read _).trans (Traced.makes_read _ _)⟩

theorem enterHandler_makes (back : UInt16) (status : UInt8) (vector : UInt16) : ∃ low high,
    t.Makes (pushes r.s [highByte back, lowByte back, status] ++ [.read vector low, .read (vector + 1) high])
      (enterHandler r t back status vector).2 :=
  ⟨_, _, ((pushWord_makes r t back).trans (Traced.makes_write _ _ _)).trans
    ((Traced.makes_read _ _).trans (Traced.makes_read _ _))⟩

/-- What an operation pushes as return address is that of the last byte of the instruction. JSR has an operand
of two bytes, and BRK passes over one. -/
structure ReturnsBehind (op : Op) (operand : Operand) (pc back : UInt16) : Prop where
  jsr : op = .control .jsr → operand.target?.isSome ∧ back = pc - 1
  brk : op = .control .brk → back = pc + 1

theorem control_makes (op : ControlOp) (operand : Operand) {back : UInt16}
    (hback : ReturnsBehind (.control op) operand r.pc back) :
    ∃ taken, t.Makes (op.accesses r back taken) (op.run operand r t).2 := by
  cases op with
  | jmp => exact ⟨⟨0, 0, 0⟩, by cases operand <;> exact .refl t⟩
  | jsr =>
    obtain ⟨htarget, rfl⟩ := hback.jsr rfl
    cases operand with
    | address target crossed => exact ⟨⟨0, 0, 0⟩, pushWord_makes r t _⟩
    | _ => cases htarget
  | rts =>
    obtain ⟨low, high, h⟩ := pullWord_makes r t
    exact ⟨⟨low, high, 0⟩, h⟩
  | rti =>
    obtain ⟨low, high, h⟩ := pullWord_makes (pull r t).2.1 (pull r t).2.2
    exact ⟨⟨_, low, high⟩, (t.makes_read _).trans h⟩
  | brk =>
    obtain rfl := hback.brk rfl
    obtain ⟨low, high, h⟩ := enterHandler_makes r t (r.pc + 1) r.p.pushedByBreak irqVector
    exact ⟨⟨low, high, 0⟩, h⟩
  | pha => exact ⟨⟨0, 0, 0⟩, t.makes_write _ _⟩
  | php => exact ⟨⟨0, 0, 0⟩, t.makes_write _ _⟩
  | pla | plp => exact ⟨⟨_, 0, 0⟩, t.makes_read _⟩

/-- The byte written back does not depend on where the instruction is. -/
theorem change_pc (op : ModifyOp) (pc : UInt16) (v : UInt8) :
    (op.change { r with pc } v).1 = (op.change r v).1 := by
  cases op <;> rfl

theorem op_makes (op : Op) (operand : Operand) (pc : UInt16) (hback : ReturnsBehind op operand pc (r.pc + 2)) :
    ∃ taken, t.Makes (op.accesses r operand.target? taken) (op.run operand { r with pc } t).2.2 := by
  cases op with
  | read op =>
    cases operand with
    | address target crossed => exact ⟨⟨_, 0, 0⟩, t.makes_read target⟩
    | _ => exact ⟨⟨0, 0, 0⟩, .refl t⟩
  | store op =>
    cases operand with
    | address target crossed => exact ⟨⟨0, 0, 0⟩, by cases op <;> exact t.makes_write target _⟩
    | _ => exact ⟨⟨0, 0, 0⟩, .refl t⟩
  | modify op =>
    cases operand with
    | address target crossed =>
      refine ⟨⟨(Bus.read t target).1, 0, 0⟩, (t.makes_read target).trans ?_⟩
      rw [← change_pc r op pc]
      exact Traced.makes_write _ target _
    | _ => exact ⟨⟨0, 0, 0⟩, .refl t⟩
  | control op =>
    obtain ⟨taken, h⟩ := control_makes { r with pc } t op operand hback
    exact ⟨taken, by cases op <;> exact h⟩
  | branch op =>
    refine ⟨⟨0, 0, 0⟩, ?_⟩
    cases operand with
    | branch target crossed =>
      unfold Op.run
      dsimp only
      split_ifs <;> exact .refl t
    | _ => exact .refl t
  | register op => exact ⟨⟨0, 0, 0⟩, .refl t⟩
  | nop => exact ⟨⟨0, 0, 0⟩, .refl t⟩

end Operations

/-! ### Instructions -/

/-- JSR comes with an absolute operand and BRK with none. -/
theorem decode_mode {opcode : UInt8} {i : Instruction} (h : decode opcode = some i) :
    (i.op = .control .jsr → i.mode = .absolute) ∧ (i.op = .control .brk → i.mode = .implied) := by
  have hall : ∀ v : BitVec 8, ∀ i ∈ decode ⟨v⟩,
      (i.op = .control .jsr → i.mode = .absolute) ∧ (i.op = .control .brk → i.mode = .implied) := by
    decide +kernel
  exact hall opcode.toBitVec i h

section Instructions

variable {σ : Type} [Bus σ] (r : Registers) (t : Traced σ)

theorem run_makes {opcode : UInt8} {i : Instruction} (h : decode opcode = some i) : ∃ given taken,
    t.Makes (i.accesses r given taken) (i.run (fetched r) t).2.2 := by
  obtain ⟨given, operand, u, hresolve, htarget, hu⟩ := resolve_makes r t i.mode
  have hback : ReturnsBehind i.op operand (r.pc + UInt16.ofNat (i.mode.length + 1)) (r.pc + 2) := by
    refine ⟨fun hop => ?_, fun hop => ?_⟩
    · rw [htarget, (decode_mode h).1 hop]
      refine ⟨rfl, ?_⟩
      rw [UInt16.sub_eq_add_neg, UInt16.add_assoc]
      rfl
    · rw [(decode_mode h).2 hop, UInt16.add_assoc]
      rfl
  obtain ⟨taken, hop⟩ := op_makes r u i.op operand _ hback
  refine ⟨given, taken, ?_⟩
  have hmakes := hu.trans hop
  rw [htarget] at hmakes
  unfold Instruction.run
  rw [hresolve]
  exact hmakes

/-- How many accesses an instruction makes depends neither on the registers nor on what is read. -/
theorem length_accesses (i : Instruction) (r r' : Registers) (given given' : OperandBytes)
    (taken taken' : TakenBytes) :
    (i.accesses r given taken).length = (i.accesses r' given' taken').length := by
  have hmode : (i.mode.pointerReads r given).length = (i.mode.pointerReads r' given').length := by
    cases i.mode <;> rfl
  have hop : (i.op.accesses r (i.mode.target? r given) taken).length =
      (i.op.accesses r' (i.mode.target? r' given') taken').length := by
    cases i.op with
    | control op => cases op <;> rfl
    | register op | branch op | nop => rfl
    | read op | store op | modify op => cases i.mode <;> rfl
  simp only [Instruction.accesses, Mode.operandReads, List.length_append, List.length_take, List.length_cons,
    hmode, hop]

/-- With the fetch of the opcode there are as many accesses as cycles, or less. -/
theorem length_accesses_lt {opcode : UInt8} {i : Instruction} (h : decode opcode = some i) (given : OperandBytes)
    (taken : TakenBytes) : (i.accesses r given taken).length < i.cycles := by
  have hall : ∀ v : BitVec 8, ∀ i ∈ decode ⟨v⟩,
      (i.accesses .powerOn ⟨0, 0, 0, 0⟩ ⟨0, 0, 0⟩).length < i.cycles := by
    decide +kernel
  rw [length_accesses i r .powerOn given ⟨0, 0, 0, 0⟩ taken ⟨0, 0, 0⟩]
  exact hall opcode.toBitVec i h

end Instructions

/-! ### Steps -/

section Steps

variable {σ : Type} [Bus σ] (cpu : Cpu) (t : Traced σ)

/-- An opcode without an instruction is fetched, and that is all. -/
theorem step_none_makes (h : decode (Bus.read t cpu.registers.pc).1 = none) :
    t.Makes [.read cpu.registers.pc (Bus.read t cpu.registers.pc).1] (cpu.step t).2.2 := by
  rw [step_none h]
  exact t.makes_read cpu.registers.pc

theorem step_some_makes {i : Instruction} (h : decode (Bus.read t cpu.registers.pc).1 = some i) :
    ∃ given taken,
      t.Makes (.read cpu.registers.pc (Bus.read t cpu.registers.pc).1 :: i.accesses cpu.registers given taken)
        (cpu.step t).2.2 := by
  obtain ⟨given, taken, hrun⟩ := run_makes cpu.registers (Bus.read t cpu.registers.pc).2 h
  rw [step_some_eq h]
  exact ⟨given, taken, (t.makes_read cpu.registers.pc).trans hrun⟩

/-- On a bus that records, a step does what it does on the bus itself. What it has then recorded is the fetch
of the opcode and the accesses of the instruction, of which there are no more than cycles. -/
theorem step_accesses (cpu : Cpu) (bus : σ) :
    let pc := cpu.registers.pc
    let opcode := (Bus.read bus pc).1
    let done := cpu.step (Traced.anew bus)
    (done.1, done.2.1, done.2.2.bus) = cpu.step bus ∧
      match decode opcode with
      | none => done.2.2.accesses.toList = [.read pc opcode]
      | some i =>
        (∃ given taken,
          done.2.2.accesses.toList = .read pc opcode :: i.accesses cpu.registers given taken) ∧
        done.2.2.accesses.size ≤ done.1 ∧ 2 ≤ done.1 ∧ done.1 ≤ 8 := by
  intro pc opcode done
  refine ⟨(Traced.bus_hom.step (Traced.anew bus) cpu).symm, ?_⟩
  cases hd : decode opcode with
  | none => exact step_none_makes cpu (Traced.anew bus) hd
  | some i =>
    obtain ⟨given, taken, hmade⟩ := step_some_makes cpu (Traced.anew bus) hd
    replace hmade : done.2.2.accesses.toList = .read pc opcode :: i.accesses cpu.registers given taken := hmade
    have hcycles : i.cycles ≤ done.1 := by
      rw [show done.1 = _ from step_some hd]
      exact (run_cycles i _ _).1
    have hlength := length_accesses_lt cpu.registers hd given taken
    refine ⟨⟨given, taken, hmade⟩, ?_, step_some_bounds hd⟩
    rw [← Array.length_toList, hmade, List.length_cons]
    omega

end Steps

end Cpu
end Vic20
