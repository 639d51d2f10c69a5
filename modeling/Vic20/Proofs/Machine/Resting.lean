import Vic20.Proofs.Drive.Invariant
import Vic20.Proofs.Machine.Keeps
import Vic20.Storage.Disk

/-! A machine ticks its drive only while that is active. What reaches the drive from the board are signals, the
passing of time and the taking of its journal, so that a drive that has been new holds its invariant in every
machine, and a machine that ticked it always would run the same frames. -/

namespace Vic20

namespace Via

variable {σ : Type} [Wiring σ] {P : σ → Prop}

/-- What is connected to an adapter keeps a property of itself. -/
structure Wiring.Keeps (P : σ → Prop) : Prop where
  portIn {wires : σ} (h : P wires) (via : Via) (pin : Pin) : P (Wiring.portIn wires via pin).2
  portOut {wires : σ} (h : P wires) (via : Via) (pin : Pin) : P (Wiring.portOut wires via pin)

namespace Wiring.Keeps

variable (hP : Wiring.Keeps P) {wires : σ} (h : P wires) (via : Via)

include hP h

theorem read (register : UInt8) : P (via.read register wires).2.2 := by
  unfold Via.read
  split <;> first | exact hP.portIn h _ _ | exact h

theorem peripheral (v : UInt8) : P (via.writePeripheral v wires).2 := by
  unfold writePeripheral
  cases forcedLevel (v >>> 1) <;> cases forcedLevel (v >>> 5)
  · exact h
  · exact hP.portOut h _ _
  · exact hP.portOut h _ _
  · exact hP.portOut (hP.portOut h _ _) _ _

theorem write (register v : UInt8) : P (via.write register v wires).2 := by
  unfold Via.write
  split <;> first | exact hP.portOut h _ _ | exact hP.peripheral h via v | exact h

end Wiring.Keeps
end Via

namespace Board

variable {σ : Type} [Storage σ]

theorem wires1_keeps : Via.Wiring.Keeps fun w : Wires1 σ => w.drive.Reached where
  portIn h _ pin := by cases pin <;> exact h
  portOut h via pin := by
    cases pin
    case a => exact h.apply (.signal (.atn (attentionPulled via)))
    all_goals exact h

theorem wires2_keeps : Via.Wiring.Keeps fun w : Wires2 σ => w.drive.Reached where
  portIn h _ pin := by cases pin <;> exact h
  portOut h via pin := by
    cases pin
    case ca2 => exact h.apply (.signal (.clk via.ca2))
    case cb2 => exact h.apply (.signal (.data via.cb2))
    all_goals exact h

theorem read_reached {b : Board σ} (h : b.drive.Reached) (address : UInt16) :
    (b.read address).2.drive.Reached := by
  unfold Board.read
  split
  · exact h
  · exact h
  · exact wires1_keeps.read (by exact h) b.via1 _
  · exact wires2_keeps.read (by exact h) b.via2 _

theorem write_reached {b : Board σ} (h : b.drive.Reached) (address : UInt16) (v : UInt8) :
    (b.write address v).drive.Reached := by
  unfold Board.write
  dsimp only
  split
  · exact h
  · exact h
  · exact wires1_keeps.write (by exact h) b.via1 _ v
  · exact wires2_keeps.write (by exact h) b.via2 _ v

/-- All that reaches the drive is one of its operations. -/
theorem keeps_reached : Board.Keeps fun b : Board σ => b.drive.Reached where
  read h address := read_reached h address
  write h address v := write_reached h address v
  tickVia1 h _ := h
  tickVia2 h _ := h
  tickVic h _ := h
  tickDrive {b} h cycles := by
    change (if b.drive.active then b.drive.tick cycles else b.drive).Reached
    split
    · exact h.apply (.signal (.pass cycles))
    · exact h
  syncSerial h := h
  takeJournal h := h.apply .takeJournal

/-- Advances the drive, addressed or not. -/
def tickDriveAlways (b : Board σ) (cycles : Nat) : Board σ := { b with drive := b.drive.tick cycles }

theorem tickDrive_eq {b : Board σ} (h : b.drive.Reached) (cycles : Nat) :
    b.tickDrive cycles = b.tickDriveAlways cycles := by
  have hdrive : (if b.drive.active then b.drive.tick cycles else b.drive) = b.drive.tick cycles := by
    split
    · rfl
    · next hi => exact (h.kept.rests.tick_eq (by simpa using hi) cycles).symm
  exact congrArg (fun drive => { b with drive }) hdrive

end Board

namespace Core

variable {σ : Type} [Storage σ]

/-- Brings the video chip and the drive up to date, addressed or not. -/
def advanceAlways (c : Core σ) (cycles : Nat) : Core σ :=
  ⟨c.cpu, ((c.board.tickVic cycles).tickDriveAlways cycles).syncSerial, c.nmiLine⟩

/-- A step in which the drive is ticked always. -/
def stepAlways (c : Core σ) : Nat × Core σ :=
  let (n, c) := c.execute
  let (asserted, c) := c.tickVia1 n
  let (nmi, c) := c.followNmi asserted
  let (requested, c) := c.tickVia2 (n + nmi)
  let (irq, c) := if requested then c.takeIrq else (0, c)
  (n + nmi + irq, c.advanceAlways (n + nmi + irq))

theorem advance_eq (c : Core σ) (n : Nat) :
    c.advance n = ⟨c.cpu, ((c.board.tickVic n).tickDrive n).syncSerial, c.nmiLine⟩ := by
  obtain ⟨cpu, board, line⟩ := c
  rfl

theorem step_eq (c : Core σ) : c.step = (c.step.1, c.irqOf.2.advance c.step.1) := by
  rw [← step_snd]

theorem stepAlways_eq (c : Core σ) : c.stepAlways = (c.step.1, c.irqOf.2.advanceAlways c.step.1) := by
  unfold stepAlways step irqOf polled followed
  rcases c.execute with ⟨n, c₁⟩
  rfl

theorem stepAlways_step {c : Core σ} (h : c.board.drive.Reached) : c.step = c.stepAlways := by
  have hirq : c.irqOf.2.board.drive.Reached := Board.keeps_reached.irqOf h
  rw [stepAlways_eq, step_eq, advance_eq, advanceAlways,
    Board.tickDrive_eq (b := c.irqOf.2.board.tickVic c.step.1) hirq]

end Core

namespace Machine

variable {σ : Type} [Storage σ]

def stepAlways (m : Machine σ) : Nat × Machine σ :=
  let ⟨core, cycle, frames, typing, journal⟩ := m
  let known := core.cpu.unsupported.size
  let (n, core) := core.stepAlways
  let journal := if core.cpu.unsupported.size = known then journal
    else journal ++ (core.cpu.notedAfter known).map .unsupported
  (n, collectDrive ⟨core, cycle, frames, typing, journal⟩)

def runStepsAlways (m : Machine σ) : (fuel run : Nat) → Nat × Machine σ
  | 0, run => (run, m)
  | fuel + 1, run =>
    if Video.cyclesPerFrame ≤ run then (run, m)
    else
      let (n, m) := m.stepAlways
      m.runStepsAlways fuel (run + n)

/-- Runs a frame in which the drive is ticked by every step, and then types. -/
def runFrameAlways (m : Machine σ) : Nat × Machine σ :=
  let (n, m) := m.runStepsAlways frameFuel 0
  let ⟨⟨cpu, board, nmiLine⟩, cycle, frames, typing, journal⟩ := m
  let (typing, board) := board.type typing
  (n, ⟨⟨cpu, board, nmiLine⟩, cycle + UInt32.ofNat n, frames + 1, typing, journal⟩)

variable {m : Machine σ}

theorem step_always (h : m.core.board.drive.Reached) : m.step = m.stepAlways := by
  obtain ⟨core, cycle, frames, typing, journal⟩ := m
  have hcore : core.step = core.stepAlways := Core.stepAlways_step h
  simp only [step, stepAlways, hcore]

theorem runSteps_always (h : m.core.board.drive.Reached) (fuel run : Nat) :
    m.runSteps fuel run = m.runStepsAlways fuel run := by
  induction fuel generalizing m run with
  | zero => rfl
  | succ fuel ih =>
    have hstep : m.step.2.core.board.drive.Reached := Board.keeps_reached.machineStep h
    unfold runSteps runStepsAlways
    rw [← step_always h]
    split
    · rfl
    · exact ih hstep _

theorem runFrame_always (h : m.core.board.drive.Reached) : m.runFrame = m.runFrameAlways := by
  have hrun := runSteps_always h frameFuel 0
  unfold runFrame runFrameAlways
  -- The loops are named away, since no check of the rest may unfold their fuel.
  generalize m.runSteps frameFuel 0 = r at hrun ⊢
  generalize m.runStepsAlways frameFuel 0 = r' at hrun ⊢
  subst hrun
  rfl

theorem runFrames_always (h : m.core.board.drive.Reached) (count : Nat) :
    m.runFrames runFrame count = m.runFrames runFrameAlways count := by
  induction count generalizing m with
  | zero => rw [runFrames_zero, runFrames_zero]
  | succ count ih =>
    have hframe : m.runFrame.2.core.board.drive.Reached := Board.keeps_reached.runFrame h
    rw [runFrames_succ, runFrames_succ, ← runFrame_always h, ih hframe]

/-- A drive that has been new holds its invariant, whatever was done to it and whatever its storage answered.
While it is not active a tick would not change it, and no frame of a machine shows that such ticks are left
out. -/
theorem drive_invariant (device : UInt8) (os : List (Drive.Operation σ)) :
    let d : Drive σ := (Drive.new device).operate os
    d.Invariant ∧ (d.active = false → ∀ cycles, d.tick cycles = d) ∧
      ∀ m : Machine σ, m.core.board.drive = d →
        ∀ count, m.runFrames runFrame count = m.runFrames runFrameAlways count := by
  intro d
  have hreached : d.Reached := ⟨device, os, rfl⟩
  refine ⟨hreached.kept.invariant, hreached.kept.rests.tick_eq, fun m hm count => ?_⟩
  refine runFrames_always ?_ count
  rw [hm]
  exact hreached

/-- Attention that addresses nobody leaves the drive at rest. -/
theorem drive_invariant_released :
    let d : Drive Disk := (Drive.new 8).operate
      [.signal (.clk true), .signal (.atn true), .signal (.pass 10), .signal (.atn false)]
    d.active = false ∧ d.tick 100 = d :=
  ⟨by decide, (drive_invariant 8
    [.signal (.clk true), .signal (.atn true), .signal (.pass 10), .signal (.atn false)]).2.1 (by decide) 100⟩

end Machine
end Vic20
