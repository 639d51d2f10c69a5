import Vic20.Proofs.Machine.Frame
import Vic20.Proofs.Cpu.Keeps

/-! What a machine keeps: a property of the board that accesses, the advance of each chip and the look at the
serial lines keep is kept by a step, and so by a frame. -/

namespace Vic20

variable {σ : Type} [Storage σ]

/-- Whatever is done to the board keeps a property of it. -/
structure Board.Keeps (P : Board σ → Prop) : Prop extends Bus.Keeps P where
  tickVia1 {b : Board σ} (h : P b) (cycles : Nat) : P (b.tickVia1 cycles).2
  tickVia2 {b : Board σ} (h : P b) (cycles : Nat) : P (b.tickVia2 cycles).2
  tickVic {b : Board σ} (h : P b) (cycles : Nat) : P (b.tickVic cycles)
  tickDrive {b : Board σ} (h : P b) (cycles : Nat) : P (b.tickDrive cycles)
  syncSerial {b : Board σ} (h : P b) : P b.syncSerial
  takeJournal {b : Board σ} (h : P b) : P { b with drive := b.drive.takeJournal.2 }

namespace Core

theorem step_snd (c : Core σ) : c.step.2 = c.irqOf.2.advance c.step.1 := by
  unfold step irqOf polled followed
  rcases c.execute with ⟨n, c₁⟩
  rfl

end Core

namespace Board.Keeps

variable {P : Board σ → Prop} (hP : Board.Keeps P)

include hP

section Core

variable {c : Core σ} (h : P c.board)

include h

theorem followNmi (asserted : Bool) : P (c.followNmi asserted).2.board := by
  unfold Core.followNmi
  by_cases hsame : (asserted == c.nmiLine) = true
  · rw [if_pos hsame]
    exact h
  · rw [if_neg hsame]
    cases asserted with
    | true => exact hP.tickVia1 (hP.nmi h c.cpu) 7
    | false => exact h

theorem followed : P c.followed.2.board := hP.followNmi (hP.tickVia1 (hP.step h c.cpu) _) _

theorem takeIrq : P c.takeIrq.2.board := by
  rw [Core.takeIrq_eq]
  exact hP.tickVia2 (hP.followNmi (hP.tickVia1 (hP.irq h c.cpu) _) _) _

theorem irqOf : P c.irqOf.2.board := by
  have hpolled : P c.polled.2.board := hP.tickVia2 (hP.followed h) _
  unfold Core.irqOf
  split
  · exact hP.takeIrq hpolled
  · exact hpolled

theorem coreStep : P c.step.2.board := by
  rw [Core.step_snd]
  exact hP.syncSerial (hP.tickDrive (hP.tickVic (hP.irqOf h) _) _)

end Core

section Machine

variable {m : Machine σ}

theorem collectDrive (h : P m.core.board) : P m.collectDrive.core.board := by
  unfold Machine.collectDrive
  split
  · exact h
  · exact hP.takeJournal h

theorem machineStep (h : P m.core.board) : P m.step.2.core.board :=
  hP.collectDrive (hP.coreStep h)

theorem runSteps (h : P m.core.board) (fuel run : Nat) : P (m.runSteps fuel run).2.core.board := by
  induction fuel generalizing m run with
  | zero => exact h
  | succ fuel ih =>
    unfold Machine.runSteps
    split
    · exact h
    · exact ih (hP.machineStep h) _

theorem type {b : Board σ} (h : P b) (text : List UInt8) : P (b.type text).2 := by
  induction text generalizing b with
  | nil => exact h
  | cons v text ih =>
    have hread := hP.read (hP.read h Board.keyboardCount) Board.keyboardCapacity
    unfold Board.type
    dsimp only
    split
    · exact hread
    · exact ih (hP.write (hP.write hread _ v) _ _)

theorem runFrame (h : P m.core.board) : P m.runFrame.2.core.board :=
  hP.type (hP.runSteps h Machine.frameFuel 0) (m.runSteps Machine.frameFuel 0).2.typing

end Machine

end Board.Keeps
end Vic20
