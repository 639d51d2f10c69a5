import Vic20.Proofs.Machine.Trace

/-! A guest that waits. The processor jumps on the spot, and neither adapter interrupts it. So time passes, and memory
stays as it is. -/

namespace Vic20

theorem Via.tick_disabled {via : Via} (h : via.enabled = 0) (cycles : UInt32) : (via.tick cycles).1 = false := by
  change (_ &&& via.enabled &&& 0x7F != 0) = false
  rw [h, UInt8.and_zero]
  rfl

structure Core.Waits {σ : Type} (contents : Memory) (c : Core σ) : Prop where
  memory : c.board.memory = contents
  jump : contents.read 0x1000 = 0x4C ∧ contents.read 0x1001 = 0x00 ∧ contents.read 0x1002 = 0x10
  pc : c.cpu.registers.pc = 0x1000
  via1 : c.board.via1.enabled = 0
  via2 : c.board.via2.enabled = 0

namespace Core.Waits

variable {σ : Type} {contents : Memory} {c : Core σ}

theorem execute (h : Waits contents c) : Waits contents c.execute.2 := by
  obtain ⟨cpu, board, line⟩ := c
  obtain ⟨hopcode, hlow, hhigh⟩ := h.jump
  have hpc : cpu.registers.pc = 0x1000 := h.pc
  have hread {a : UInt16} {v : UInt8} (ha : Board.Chip.ofAddress a = .memory) (hv : contents.read a = v) :
      Bus.read board a = (v, board) := by
    rw [← hv, ← h.memory]
    exact Board.read_memory board ha
  have hword : Cpu.fetchWord (Cpu.fetched cpu.registers) board =
      (0x1000, { cpu.registers with pc := 0x1003 }, board) := by
    have hfirst : Bus.read board (0x1000 + 1) = (0x00, board) := hread (by decide) hlow
    have hsecond : Bus.read board (0x1000 + 1 + 1) = (0x10, board) := hread (by decide) hhigh
    simp only [Cpu.fetchWord, Cpu.fetch, Cpu.fetched, hpc, hfirst, hsecond]
    rfl
  have hjump : (⟨.control .jmp, .absolute, 3⟩ : Cpu.Instruction).run (Cpu.fetched cpu.registers) board =
      (3, { cpu.registers with pc := 0x1000 }, board) := by
    simp only [Cpu.Instruction.run, Cpu.resolve, hword]
    rfl
  have hfetch : Bus.read board cpu.registers.pc = (0x4C, board) := by
    rw [hpc]
    exact hread (by decide) hopcode
  have hdecode : Cpu.decode (Bus.read board cpu.registers.pc).1 = some ⟨.control .jmp, .absolute, 3⟩ := by
    have hbyte : (Bus.read board cpu.registers.pc).1 = 0x4C := congrArg Prod.fst hfetch
    rw [hbyte]
    decide
  have hstep := Cpu.step_some_eq hdecode
  rw [hfetch, hjump] at hstep
  have hexecute : Core.execute ⟨cpu, board, line⟩ =
      (3, ⟨{ cpu with registers := { cpu.registers with pc := 0x1000 }, cycles := cpu.cycles + 3 }, board, line⟩) := by
    unfold Core.execute
    simp only [hstep]
  rw [hexecute]
  exact ⟨h.memory, h.jump, rfl, h.via1, h.via2⟩

theorem tickVia1 (h : Waits contents c) (n : Nat) : (c.tickVia1 n).1 = false ∧ Waits contents (c.tickVia1 n).2 := by
  obtain ⟨cpu, ⟨_, vic, via1, via2, keyboard, joystick, drive⟩, line⟩ := c
  exact ⟨Via.tick_disabled h.via1 _, h.memory, h.jump, h.pc, h.via1, h.via2⟩

theorem tickVia2 (h : Waits contents c) (n : Nat) : (c.tickVia2 n).1 = false ∧ Waits contents (c.tickVia2 n).2 := by
  obtain ⟨cpu, ⟨_, vic, via1, via2, keyboard, joystick, drive⟩, line⟩ := c
  exact ⟨Via.tick_disabled h.via2 _, h.memory, h.jump, h.pc, h.via1, h.via2⟩

theorem followNmi (h : Waits contents c) : Waits contents (c.followNmi false).2 := by
  obtain ⟨cpu, board, line⟩ := c
  cases line with
  | false => exact h
  | true => exact ⟨h.memory, h.jump, h.pc, h.via1, h.via2⟩

theorem followed (h : Waits contents c) : Waits contents c.followed.2 := by
  obtain ⟨hquiet, hticked⟩ := h.execute.tickVia1 c.execute.1
  change Waits contents ((c.execute.2.tickVia1 c.execute.1).2.followNmi (c.execute.2.tickVia1 c.execute.1).1).2
  rw [hquiet]
  exact hticked.followNmi

theorem irqOf (h : Waits contents c) : Waits contents c.irqOf.2 := by
  have hpolled : c.polled.1 = false ∧ Waits contents c.polled.2 := h.followed.tickVia2 _
  rw [Core.irqOf, hpolled.1, if_neg Bool.false_ne_true]
  exact hpolled.2

theorem onDrive (h : Waits contents c) (drive : Drive σ) :
    Waits contents { c with board := { c.board with drive } } :=
  ⟨h.memory, h.jump, h.pc, h.via1, h.via2⟩

variable [Storage σ] {m : Machine σ}

theorem advance (h : Waits contents c) (n : Nat) : Waits contents (c.advance n) := by
  obtain ⟨cpu, ⟨_, vic, via1, via2, keyboard, joystick, drive⟩, line⟩ := c
  exact ⟨h.memory, h.jump, h.pc, h.via1, h.via2⟩

theorem step (h : Waits contents c) : Waits contents c.step.2 := by
  rw [Core.step_snd]
  exact h.irqOf.advance c.step.1

theorem machineStep (h : Waits contents m.core) : Waits contents m.step.2.core := by
  obtain ⟨drive, journal, hm⟩ := Machine.step_snd m
  rw [hm]
  exact h.step.onDrive drive

theorem runSteps (h : Waits contents m.core) (fuel run : Nat) : Waits contents (m.runSteps fuel run).2.core := by
  induction fuel generalizing m run with
  | zero => exact h
  | succ fuel ih =>
    unfold Machine.runSteps
    split
    · exact h
    · exact ih h.machineStep _

end Core.Waits

end Vic20
