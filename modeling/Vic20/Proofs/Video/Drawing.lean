import Mathlib.Tactic.SplitIfs
import Vic20.Video.Raster
import Vic20.Video.Registers

/-! What drawing leaves alone, and the states that a video chip can come to from power-on. In these the character
area begins a whole number of groups of four pixels away from the left of the picture, and ends so as well
(`Reachable.edges`): a group under the beam is never half border. -/

namespace Vic20.Vic

open Video

section Drawing

variable {μ : Type} [VideoMemory μ] (vic : Vic) (memory : μ)

theorem advance_beam : vic.advance.beam = vic.beam.next := by
  unfold advance
  dsimp only
  split_ifs <;> rfl

theorem advance_registers : vic.advance.registers = vic.registers := by
  unfold advance
  dsimp only
  split_ifs <;> rfl

/-- A frame is done when the beam comes to the start of the next. -/
theorem advance_frameDone : vic.advance.frameDone =
    (vic.frameDone || vic.beam.next.cycle.val = 0 && vic.beam.next.line.val = 0) := by
  unfold advance
  dsimp only
  split_ifs with hcycle hline <;> simp_all

theorem advance_geometry : vic.advance.geometry = vic.geometry := by
  unfold advance
  dsimp only
  split_ifs <;> rfl

theorem advance_ink : vic.advance.ink = vic.ink := by
  unfold advance
  dsimp only
  split_ifs <;> rfl

theorem advance_picture : vic.advance.picture = vic.picture := by
  unfold advance
  dsimp only
  split_ifs <;> rfl

/-- The text line with its current cell fetched. -/
def filled : TextLine :=
  if vic.text.fetch then
    { vic.text with fetch := false, high := (vic.cell memory).1, low := (vic.cell memory).2 }
  else vic.text

/-- A group inside the character area is one half of the current cell, and the second half ends it. -/
theorem drawGroup_inside (h : vic.drawsBorder = false) :
    vic.drawGroup memory =
      if vic.inFirstHalf then
        ({ vic with text := vic.filled memory } : Vic).plot (vic.filled memory).high
      else
        let text := vic.filled memory
        ({ vic with text := { text with column := text.column + 1, fetch := true } } : Vic).plot text.low := by
  unfold drawGroup
  rw [if_neg (by simp [h])]
  rfl

/-- Drawing changes the text line and the picture. -/
theorem draw_eq : ∃ text picture, vic.draw memory = { vic with text, picture } := by
  unfold draw
  by_cases hin : vic.beam.inPicture
  · rw [if_pos hin]
    cases hb : vic.drawsBorder with
    | true => exact ⟨_, _, if_pos hb⟩
    | false =>
      rw [drawGroup_inside vic memory hb]
      split_ifs <;> exact ⟨_, _, rfl⟩
  · rw [if_neg hin]
    exact ⟨_, _, rfl⟩

/-- A cycle. -/
def cycled : Vic := vic.advance.draw memory

theorem cycled_beam : (vic.cycled memory).beam = vic.beam.next := by
  obtain ⟨_, _, h⟩ := draw_eq vic.advance memory
  exact (congrArg Vic.beam h).trans (advance_beam vic)

theorem cycled_registers : (vic.cycled memory).registers = vic.registers := by
  obtain ⟨_, _, h⟩ := draw_eq vic.advance memory
  exact (congrArg Vic.registers h).trans (advance_registers vic)

theorem cycled_frameDone : (vic.cycled memory).frameDone =
    (vic.frameDone || vic.beam.next.cycle.val = 0 && vic.beam.next.line.val = 0) := by
  obtain ⟨_, _, h⟩ := draw_eq vic.advance memory
  exact (congrArg Vic.frameDone h).trans (advance_frameDone vic)

theorem cycled_geometry : (vic.cycled memory).geometry = vic.geometry := by
  obtain ⟨_, _, h⟩ := draw_eq vic.advance memory
  exact (congrArg Vic.geometry h).trans (advance_geometry vic)

theorem tick_add (a b : Nat) : vic.tick memory (a + b) = (vic.tick memory a).tick memory b := by
  induction a generalizing vic with
  | zero => rw [Nat.zero_add, tick]
  | succ a ih => rw [Nat.add_right_comm, tick, tick, ih]

theorem tick_succ (n : Nat) : vic.tick memory (n + 1) = (vic.tick memory n).cycled memory :=
  tick_add vic memory n 1

theorem tick_geometry (n : Nat) : (vic.tick memory n).geometry = vic.geometry := by
  induction n with
  | zero => rfl
  | succ n ih => rw [tick_succ, cycled_geometry, ih]

end Drawing

/-! ### Reachable states -/

inductive Reachable : Vic → Prop
  | new : Reachable .new
  | reset {vic : Vic} (h : Reachable vic) : Reachable vic.reset
  | write {vic : Vic} (h : Reachable vic) (register v : UInt8) : Reachable (vic.write register v)
  | tick {vic : Vic} {μ : Type} [VideoMemory μ] (h : Reachable vic) (memory : μ) (cycles : Nat) :
      Reachable (vic.tick memory cycles)
  | takeFrameDone {vic : Vic} (h : Reachable vic) : Reachable vic.takeFrameDone.2

/-- Both edges of the character area lie between groups. -/
def Edges (g : Geometry) : Prop := 4 ∣ g.left ∧ 4 ∣ g.right

theorem derive_edges (vic : Vic) (h : Edges vic.geometry) (register : Nat) (v : UInt8) :
    Edges (vic.derive register v).geometry := by
  obtain ⟨hleft, hright⟩ := h
  have hcolumns (left : Int) (hl : 4 ∣ left) (columns : Nat) : 4 ∣ left + columns * charWidth :=
    Int.dvd_add hl (Int.dvd_mul_of_dvd_right (by decide))
  unfold derive
  split
  case h_1 =>
    have hl : 4 ∣ (vic.geometry.setLeft v).left := Int.dvd_mul_left _ _
    exact ⟨hl, hcolumns _ hl _⟩
  case h_3 => exact ⟨hleft, hcolumns _ hleft _⟩
  all_goals exact ⟨hleft, hright⟩

theorem write_edges (vic : Vic) (h : Edges vic.geometry) (register v : UInt8) :
    Edges (vic.write register v).geometry := by
  unfold write
  dsimp only
  split_ifs
  · exact h
  · refine derive_edges _ ?_ _ _
    exact h

theorem Reachable.edges {vic : Vic} (h : Reachable vic) : Edges vic.geometry := by
  induction h with
  | new => exact ⟨Int.dvd_zero _, Int.dvd_zero _⟩
  | reset _ ih => exact ⟨Int.dvd_zero _, ih.2⟩
  | write _ register v ih => exact write_edges _ ih register v
  | tick _ memory cycles ih => rwa [tick_geometry]
  | takeFrameDone _ ih => exact ih

end Vic20.Vic
