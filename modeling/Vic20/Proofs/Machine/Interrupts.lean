import Vic20.Machine.Core
import Vic20.Proofs.Cpu.Cycles
import Vic20.Proofs.Via.Flags

/-! The interrupts of one step. An interrupt output stays asserted while time passes, and to enter an
interrupt leaves the adapters alone. So the line of the second adapter cannot be followed by a second rise of
the first one's, unless that has not risen before, and a step takes 22 cycles at the most. -/

namespace Vic20

namespace Via

/-- A tick adds flags and takes none away. -/
theorem tick_interrupting {via : Via} (h : via.interrupting = true) (cycles : UInt32) :
    (via.tick cycles).1 = true := by
  have hflags : (via.flags &&& (via.enabled &&& 0x7F) != 0) = true := by
    rw [← UInt8.and_assoc]
    exact h
  change ((_ ||| _ ||| _ ||| _ ||| _) &&& via.enabled &&& 0x7F != 0) = true
  rw [UInt8.and_assoc, or_meets, or_meets, or_meets, or_meets, hflags]
  rfl

end Via

namespace Board

variable {σ : Type} (b : Board σ)

theorem write_via1 {address : UInt16} (h : Chip.ofAddress address = .memory) (v : UInt8) :
    (b.write address v).via1 = b.via1 := by
  unfold write
  simp only [h]

theorem read_memory {address : UInt16} (h : Chip.ofAddress address = .memory) :
    b.read address = (b.memory.read address, b) := by
  unfold read
  rw [h]

theorem stack_memory (s : UInt8) : Chip.ofAddress (Cpu.Registers.stackAddress s) = .memory := by
  obtain ⟨s⟩ := s
  revert s
  decide +kernel

theorem push_via1 (r : Cpu.Registers) (v : UInt8) : (Cpu.push r b v).2.via1 = b.via1 :=
  write_via1 b (stack_memory r.s) v

theorem readWord_memory {address : UInt16} (h : Chip.ofAddress address = .memory)
    (h' : Chip.ofAddress (address + 1) = .memory) : (Cpu.readWord b address).2 = b := by
  have hread (address : UInt16) (h : Chip.ofAddress address = .memory) : (Bus.read b address).2 = b :=
    congrArg Prod.snd (read_memory b h)
  change (Bus.read (Bus.read b address).2 (address + 1)).2 = b
  rw [hread address h, hread _ h']

/-- To enter an interrupt is to push to the stack and to read a vector, and leaves the adapters alone. -/
theorem interrupt_via1 (cpu : Cpu) {vector : UInt16} (h : Chip.ofAddress vector = .memory)
    (h' : Chip.ofAddress (vector + 1) = .memory) : (cpu.interrupt b vector).2.2.via1 = b.via1 := by
  change (Cpu.readWord (Cpu.push _ (Cpu.push _ (Cpu.push _ b _).2 _).2 _).2 vector).2.via1 = b.via1
  rw [readWord_memory _ h h', push_via1, push_via1, push_via1]

theorem nmi_via1 (cpu : Cpu) : (cpu.nmi b).2.2.via1 = b.via1 :=
  interrupt_via1 b cpu (by decide) (by decide)

theorem irq_via1 (cpu : Cpu) : (cpu.irq b).2.2.via1 = b.via1 := by
  unfold Cpu.irq
  split_ifs
  · rfl
  · exact interrupt_via1 b cpu (by decide) (by decide)

/-- There is nothing at $9100, and so the high byte of the address is read there. -/
theorem read_9100 : b.read 0x9100 = (0x91, b) := by
  rw [read_memory b (by decide)]
  rfl

end Board

namespace Core

variable {σ : Type}

/-- A rise of the first adapter's output has been followed. Maskable interrupts are masked, and the output
is still as it was last seen. -/
structure Entered (c : Core σ) : Prop where
  masked : c.cpu.registers.flag Cpu.Status.interruptDisable = true
  line : c.nmiLine = true
  asserted : c.board.via1.interrupting = true

variable {c : Core σ}

theorem followNmi_cases {asserted : Bool} (h : asserted = c.board.via1.interrupting) :
    ((c.followNmi asserted).1 = 0 ∧ (c.followNmi asserted).2.cpu = c.cpu) ∨
      ((c.followNmi asserted).1 = 7 ∧ Entered (c.followNmi asserted).2) := by
  unfold followNmi
  by_cases hsame : (asserted == c.nmiLine) = true
  · rw [if_pos hsame]
    exact .inl ⟨rfl, rfl⟩
  rw [if_neg hsame]
  cases asserted with
  | false => exact .inl ⟨rfl, rfl⟩
  | true =>
    have hstays : (c.cpu.nmi c.board).2.2.via1.interrupting = true := by rw [Board.nmi_via1, ← h]
    exact .inr ⟨rfl, Cpu.nmi_masks c.cpu c.board, rfl, Via.tick_interrupting hstays 7⟩

/-- The core once the processor has answered a maskable interrupt. -/
def answeredIrq (c : Core σ) : Core σ :=
  (Core.tickVia1 ⟨(c.cpu.irq c.board).2.1, (c.cpu.irq c.board).2.2, c.nmiLine⟩ (c.cpu.irq c.board).1).2

/-- What follows the answer: the first adapter's output has been advanced over it. -/
def followedIrq (c : Core σ) : Nat × Core σ :=
  c.answeredIrq.followNmi c.answeredIrq.board.via1.interrupting

theorem takeIrq_eq (c : Core σ) :
    c.takeIrq = ((c.cpu.irq c.board).1 + c.followedIrq.1,
      (c.followedIrq.2.tickVia2 ((c.cpu.irq c.board).1 + c.followedIrq.1)).2) := by
  obtain ⟨cpu, board, nmiLine⟩ := c
  unfold takeIrq followedIrq answeredIrq
  dsimp only
  rcases cpu.irq board with ⟨n, cpu, board⟩
  rfl

theorem followedIrq_cases (c : Core σ) :
    (c.followedIrq.1 = 0 ∧ c.followedIrq.2.cpu = c.answeredIrq.cpu) ∨
      (c.followedIrq.1 = 7 ∧ Entered c.followedIrq.2) :=
  followNmi_cases rfl

theorem takeIrq_le (c : Core σ) : c.takeIrq.1 ≤ 14 := by
  have hirq := Cpu.irq_cycles_le c.cpu c.board
  rw [takeIrq_eq]
  rcases followedIrq_cases c with ⟨hnmi, -⟩ | ⟨hnmi, -⟩ <;> omega

theorem takeIrq_zero (h : c.takeIrq.1 = 0) : c.takeIrq.2.cpu = c.cpu := by
  rw [takeIrq_eq] at h ⊢
  have hirq : c.cpu.irq c.board = (0, c.cpu, c.board) := Cpu.irq_zero (by omega)
  rcases followedIrq_cases c with ⟨-, hcpu⟩ | ⟨hnmi, -⟩
  · exact hcpu.trans (congrArg (·.2.1) hirq)
  · omega

/-- After the first adapter's interrupt nothing more is entered in the same step. -/
theorem takeIrq_entered (h : Entered c) : c.takeIrq.1 = 0 := by
  have hirq := Cpu.irq_masked h.masked c.board
  have hanswered : c.answeredIrq = (c.tickVia1 0).2 := by
    rw [answeredIrq, hirq]
  have hasserted : c.answeredIrq.board.via1.interrupting = true := by
    rw [hanswered]
    exact Via.tick_interrupting h.asserted 0
  have hline : c.answeredIrq.nmiLine = true := h.line
  have hfollowed : c.followedIrq.1 = 0 := by
    rw [followedIrq, hasserted, followNmi, if_pos (by simp [hline])]
  rw [takeIrq_eq, hirq, hfollowed]

/-! ### Steps -/

/-- The instruction of a step, and the interrupt of the first adapter. -/
def followed (c : Core σ) : Nat × Core σ :=
  let (n, c) := c.execute
  let (asserted, c) := c.tickVia1 n
  c.followNmi asserted

/-- The core when the second adapter has been advanced over both. -/
def polled (c : Core σ) : Bool × Core σ := c.followed.2.tickVia2 (c.execute.1 + c.followed.1)

def irqOf (c : Core σ) : Nat × Core σ := if c.polled.1 then c.polled.2.takeIrq else (0, c.polled.2)

theorem followed_cases (c : Core σ) :
    (c.followed.1 = 0 ∧ c.followed.2.cpu = c.execute.2.cpu) ∨ (c.followed.1 = 7 ∧ Entered c.followed.2) :=
  followNmi_cases (c := (c.execute.2.tickVia1 c.execute.1).2) rfl

theorem irqOf_le (c : Core σ) : c.irqOf.1 ≤ 14 := by
  unfold irqOf
  split_ifs
  · exact takeIrq_le _
  · exact Nat.zero_le 14

theorem irqOf_entered (h : Entered c.followed.2) : c.irqOf.1 = 0 := by
  have hpolled : Entered c.polled.2 := ⟨h.masked, h.line, h.asserted⟩
  unfold irqOf
  split_ifs
  · exact takeIrq_entered hpolled
  · rfl

theorem irqOf_zero (h : c.irqOf.1 = 0) : c.irqOf.2.cpu = c.followed.2.cpu := by
  unfold irqOf at *
  split_ifs at *
  · exact takeIrq_zero h
  · rfl

variable [Storage σ]

theorem step_fst (c : Core σ) : c.step.1 = c.execute.1 + c.followed.1 + c.irqOf.1 := by
  unfold step irqOf polled followed
  rcases c.execute with ⟨n, c₁⟩
  rfl

theorem step_cpu (c : Core σ) : c.step.2.cpu = c.irqOf.2.cpu := by
  unfold step irqOf polled followed
  rcases c.execute with ⟨n, c₁⟩
  rfl

/-- Eight cycles for the instruction, and seven for each of two interrupts. -/
theorem step_le (c : Core σ) : c.step.1 ≤ 22 := by
  have hexecute : c.execute.1 ≤ 8 := Cpu.step_le c.cpu c.board
  rw [step_fst]
  rcases followed_cases c with ⟨hnmi, -⟩ | ⟨hnmi, hentered⟩
  · have hirq := irqOf_le c
    omega
  · have hirq := irqOf_entered hentered
    omega

/-- A step that takes no time passes over one byte. -/
theorem step_zero (h : c.step.1 = 0) : c.step.2.cpu.registers.pc = c.cpu.registers.pc + 1 := by
  rw [step_fst] at h
  have hnone : (c.cpu.step c.board).1 = 0 := show c.execute.1 = 0 by omega
  have hpassed : (c.cpu.step c.board).2.1.registers.pc = c.cpu.registers.pc + 1 := Cpu.step_zero hnone
  have hexecute : c.execute.2.cpu.registers.pc = c.cpu.registers.pc + 1 := hpassed
  rcases followed_cases c with ⟨-, hcpu⟩ | ⟨hnmi, -⟩
  · rw [step_cpu, irqOf_zero (by omega), hcpu, hexecute]
  · omega

/-- What is read at $9100 is an instruction of six cycles. -/
theorem step_9100 (h : c.cpu.registers.pc = 0x9100) : 6 ≤ c.step.1 := by
  have hread : (Bus.read c.board c.cpu.registers.pc).1 = 0x91 := by
    rw [h]
    exact congrArg Prod.fst (Board.read_9100 c.board)
  have hdecode : Cpu.decode (Bus.read c.board c.cpu.registers.pc).1 =
      some ⟨.store .sta, .indirectIndexed, 6⟩ := by
    rw [hread]
    decide
  have hrun : 6 ≤ c.execute.1 := by
    change 6 ≤ (c.cpu.step c.board).1
    rw [Cpu.step_some hdecode]
    exact (Cpu.run_cycles ⟨.store .sta, .indirectIndexed, 6⟩ (Cpu.fetched c.cpu.registers)
      (Bus.read c.board c.cpu.registers.pc).2).1
  rw [step_fst]
  omega

end Core
end Vic20
