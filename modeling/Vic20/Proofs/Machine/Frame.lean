import Vic20.Machine.Frame
import Vic20.Proofs.Machine.Interrupts

/-! The length of a frame. The loop of a frame counts the cycles of its steps, and a step can take none; but
such a step moves the program counter on by one, and there is an instruction that takes time at $9100. How
many bytes that is ahead is the measure between two steps that count. -/

namespace Vic20.Machine

variable {σ : Type} [Storage σ] {m : Machine σ} {run fuel : Nat} {r : Nat × Machine σ}

def pc (m : Machine σ) : UInt16 := m.core.cpu.registers.pc

omit [Storage σ] in
theorem collectDrive_pc (m : Machine σ) : m.collectDrive.pc = m.pc := by
  unfold collectDrive
  split_ifs <;> rfl

theorem step_fst (m : Machine σ) : m.step.1 = m.core.step.1 := rfl

theorem step_pc (m : Machine σ) : m.step.2.pc = m.core.step.2.cpu.registers.pc := collectDrive_pc _

theorem step_le (m : Machine σ) : m.step.1 ≤ 22 := Core.step_le m.core

theorem step_zero (h : m.step.1 = 0) : m.step.2.pc = m.pc + 1 :=
  (step_pc m).trans (Core.step_zero h)

theorem step_9100 (h : m.pc = 0x9100) : 6 ≤ m.step.1 := Core.step_9100 h

/-! ### Steps that take no time -/

/-- How many bytes ahead the program counter meets $9100. -/
def ahead (m : Machine σ) : Nat := (0x9100 - m.pc).toNat

omit [Storage σ] in
theorem ahead_lt (m : Machine σ) : m.ahead < 0x10000 := UInt16.toNat_lt _

theorem ahead_step (h : m.step.1 = 0) : m.step.2.ahead + 1 = m.ahead := by
  have hne : m.pc ≠ 0x9100 := by
    intro hpc
    have := step_9100 hpc
    omega
  have hne : m.pc.toNat ≠ 0x9100 := fun hpc => hne (UInt16.toNat_inj.1 hpc)
  have hlt := m.pc.toNat_lt
  simp only [ahead, step_zero h, UInt16.toNat_sub, UInt16.toNat_add, UInt16.reduceToNat]
  omega

/-- So many steps later. -/
def after (m : Machine σ) : Nat → Machine σ
  | 0 => m
  | k + 1 => m.step.2.after k

/-- Steps that take no time do not follow each other forever. -/
theorem after_step_pos (m : Machine σ) : ∃ k ≤ m.ahead, 0 < (m.after k).step.1 := by
  induction ha : m.ahead generalizing m with
  | zero =>
    refine ⟨0, Nat.zero_le _, Nat.pos_of_ne_zero fun h => ?_⟩
    have := ahead_step (m := m) h
    omega
  | succ n ih =>
    by_cases h : m.step.1 = 0
    · have hstep := ahead_step h
      obtain ⟨k, hk, hpos⟩ := ih m.step.2 (by omega)
      exact ⟨k + 1, by omega, hpos⟩
    · exact ⟨0, Nat.zero_le _, Nat.pos_of_ne_zero h⟩

/-! ### The loop -/

/-- The loop of a frame as it is written, without a bound: it steps until a frame's cycles have passed. -/
inductive Loop : Machine σ → Nat → Nat × Machine σ → Prop
  | ends {m : Machine σ} {run : Nat} (h : Video.cyclesPerFrame ≤ run) : Loop m run (run, m)
  | steps {m : Machine σ} {run : Nat} {r : Nat × Machine σ} (h : run < Video.cyclesPerFrame)
      (hs : Loop m.step.2 (run + m.step.1) r) : Loop m run r

theorem Loop.unique {r' : Nat × Machine σ} (h : Loop m run r) (h' : Loop m run r') : r = r' := by
  induction h with
  | ends h =>
    cases h' with
    | ends => rfl
    | steps h'' => omega
  | steps h _ ih =>
    cases h' with
    | ends h'' => omega
    | steps _ hs => exact ih hs

/-- Fuel that is enough for the rest of a frame. -/
def fuelFor (m : Machine σ) (run : Nat) : Nat :=
  if run < Video.cyclesPerFrame then (Video.cyclesPerFrame - run - 1) * 0x10000 + m.ahead + 1 else 0

theorem fuelFor_step (h : run < Video.cyclesPerFrame) :
    m.step.2.fuelFor (run + m.step.1) < m.fuelFor run := by
  have hahead := ahead_lt m.step.2
  unfold fuelFor
  rw [if_pos h]
  by_cases hzero : m.step.1 = 0
  · have hstep := ahead_step hzero
    rw [hzero, Nat.add_zero, if_pos h]
    omega
  · split_ifs <;> omega

omit [Storage σ] in
theorem fuelFor_le (m : Machine σ) : m.fuelFor 0 ≤ frameFuel := by
  have hahead := ahead_lt m
  have hframe : 0 < Video.cyclesPerFrame := by decide
  unfold fuelFor frameFuel
  rw [if_pos hframe]
  omega

theorem loop_runSteps (h : m.fuelFor run ≤ fuel) : Loop m run (m.runSteps fuel run) := by
  -- A step takes one of the fuel, and at least one of what is enough.
  induction fuel generalizing m run with
  | zero =>
    refine .ends (Nat.not_lt.1 fun hrun => ?_)
    have := fuelFor_step (m := m) hrun
    omega
  | succ fuel ih =>
    unfold runSteps
    by_cases hrun : Video.cyclesPerFrame ≤ run
    · rw [if_pos hrun]
      exact .ends hrun
    · have hrun' : run < Video.cyclesPerFrame := Nat.not_le.1 hrun
      have hstep := fuelFor_step (m := m) hrun'
      rw [if_neg hrun]
      exact .steps hrun' (ih (by omega))

theorem Loop.bounds (h : Loop m run r) (hrun : run ≤ 22173) : 22152 ≤ r.1 ∧ r.1 ≤ 22173 := by
  have hframe : Video.cyclesPerFrame = 22152 := by decide
  induction h with
  | ends h => omega
  | @steps m run _ h _ ih =>
    have hstep := step_le m
    exact ih (by omega)

/-- Every frame comes to its end, whatever the machine holds. The fuel of the loop does not cut it short, and
the frame is at most 21 cycles too long. Steps that take no time, of which there can be some, move the program
counter on by one and come to $9100, where what is read is an instruction of six cycles. -/
theorem frame_bounded (m : Machine σ) :
    (∀ r, Loop m 0 r ↔ r = m.runSteps frameFuel 0) ∧
      (22152 ≤ m.runFrame.1 ∧ m.runFrame.1 ≤ 22173) ∧
      (m.step.1 = 0 → m.step.2.pc = m.pc + 1) ∧
      (∃ k ≤ (0x9100 - m.pc).toNat, 0 < (m.after k).step.1) ∧
      m.read 0x9100 = (0x91, m) ∧ (Cpu.decode 0x91).map Cpu.Instruction.cycles = some 6 := by
  have hloop : Loop m 0 (m.runSteps frameFuel 0) := loop_runSteps (fuelFor_le m)
  refine ⟨fun r => ⟨fun h => h.unique hloop, fun h => h ▸ hloop⟩, hloop.bounds (by decide), step_zero,
    after_step_pos m, ?_, by decide⟩
  obtain ⟨⟨cpu, board, nmiLine⟩, cycle, frames, typing, journal⟩ := m
  simp only [read, Board.read_9100]

/-- Frames in a row, with the cycles that each gave. -/
def runFrames (m : Machine σ) (frame : Machine σ → Nat × Machine σ) : (count : Nat) → List Nat × Machine σ
  | 0 => ([], m)
  | count + 1 =>
    let (n, m) := frame m
    let (ns, m) := m.runFrames frame count
    (n :: ns, m)

omit [Storage σ] in
theorem runFrames_zero (m : Machine σ) (frame : Machine σ → Nat × Machine σ) :
    m.runFrames frame 0 = ([], m) := rfl

omit [Storage σ] in
theorem runFrames_succ (m : Machine σ) (frame : Machine σ → Nat × Machine σ) (count : Nat) :
    m.runFrames frame (count + 1) =
      ((frame m).1 :: ((frame m).2.runFrames frame count).1, ((frame m).2.runFrames frame count).2) := rfl

end Vic20.Machine
