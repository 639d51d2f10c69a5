import Vic20.Proofs.Video.Chip

/-! The raster as a clock. Every cycle takes the beam one position further round the frame, whatever is written
meanwhile, and the flag for a completed frame rises when it comes round. The two registers that show the line give
all of its nine bits (`raster_exact`). -/

namespace Vic20.Vic

open Video

theorem position_lt (b : Beam) : b.position < cyclesPerFrame := by
  have hp := position_eq b
  have hc : b.cycle.val < 71 := b.cycle.isLt
  have hl : b.line.val < 312 := b.line.isLt
  have hframe : cyclesPerFrame = 22152 := rfl
  omega

/-- The line and the clock follow from the position. -/
theorem of_position (b : Beam) : b.line.val = b.position / 71 ∧ b.clock = 4 * (b.position % 71) := by
  have hp := position_eq b
  have hc : b.cycle.val < 71 := b.cycle.isLt
  have hclock : b.clock = 4 * b.cycle.val := rfl
  omega

theorem scan_position (b : Beam) : 71 * b.scan.y.toNat + b.scan.x.toNat / 4 = b.position := by
  have hp := position_eq b
  have hclock : b.clock = 4 * b.cycle.val := rfl
  rw [scan_x_toNat, scan_y_toNat]
  omega

theorem scan_bounds (b : Beam) : 4 ∣ b.scan.x.toNat ∧ b.scan.x.toNat < 284 ∧ b.scan.y.toNat < 312 := by
  have hc : b.cycle.val < 71 := b.cycle.isLt
  have hl : b.line.val < 312 := b.line.isLt
  have hclock : b.clock = 4 * b.cycle.val := rfl
  rw [scan_x_toNat, scan_y_toNat]
  omega

section Cycles

variable {μ : Type} [VideoMemory μ] (vic : Vic) (memory : μ)

theorem tick_position (n : Nat) :
    (vic.tick memory n).beam.position = (vic.beam.position + n) % cyclesPerFrame := by
  induction n with
  | zero => exact (Nat.mod_eq_of_lt (position_lt vic.beam)).symm
  | succ n ih => rw [tick_succ, cycled_beam, position_next_mod, ih, Nat.mod_add_mod, Nat.add_assoc]

/-- The flag rises when the beam comes round. -/
theorem tick_frameDone (n : Nat) :
    (vic.tick memory n).frameDone = true ↔ vic.frameDone = true ∨ cyclesPerFrame ≤ vic.beam.position + n := by
  induction n with
  | zero => exact (or_iff_left (Nat.not_le.mpr (position_lt vic.beam))).symm
  | succ n ih =>
    have hframe : cyclesPerFrame = 22152 := rfl
    have hlt := position_lt vic.beam
    -- The beam is at its start when a whole number of frames has passed since then.
    have hround : (decide ((vic.tick memory n).beam.next.cycle.val = 0) &&
        decide ((vic.tick memory n).beam.next.line.val = 0)) = true ↔ 22152 ∣ vic.beam.position + (n + 1) := by
      have hnext := position_next_mod (vic.tick memory n).beam
      have hp := position_eq (vic.tick memory n).beam.next
      rw [tick_position, Nat.mod_add_mod, hframe] at hnext
      simp only [Bool.and_eq_true, decide_eq_true_eq]
      omega
    rw [tick_succ, cycled_frameDone, Bool.or_eq_true, ih, hround, hframe, or_assoc]
    refine or_congr_right ?_
    omega

end Cycles

variable {vic : Vic}

theorem cyclesOf_cons (o : Operation) (os : List Operation) : cyclesOf (o :: os) = o.cycles + cyclesOf os := rfl

theorem perform_position (o : Operation) :
    (vic.perform o).2.beam.position = (vic.beam.position + o.cycles) % cyclesPerFrame := by
  have hsame : vic.beam.position = (vic.beam.position + 0) % cyclesPerFrame :=
    (Nat.mod_eq_of_lt (position_lt vic.beam)).symm
  cases o with
  | write register v => exact (congrArg Beam.position (write_beam register v)).trans hsame
  | read | takeFrameDone => exact hsame
  | tick memory cycles => exact tick_position vic memory cycles

theorem run_position (os : List Operation) :
    (vic.run os).2.beam.position = (vic.beam.position + cyclesOf os) % cyclesPerFrame := by
  induction os generalizing vic with
  | nil => exact (Nat.mod_eq_of_lt (position_lt vic.beam)).symm
  | cons o os ih => rw [run, ih, perform_position, Nat.mod_add_mod, Nat.add_assoc, cyclesOf_cons]

theorem write_frameDone (register v : UInt8) : (vic.write register v).frameDone = vic.frameDone := by
  unfold write derive
  dsimp only
  split_ifs
  · rfl
  · split <;> rfl

theorem perform_frameDone {o : Operation} (h : o ≠ .takeFrameDone) :
    (vic.perform o).2.frameDone = true ↔
      vic.frameDone = true ∨ cyclesPerFrame ≤ vic.beam.position + o.cycles := by
  have hnot : ¬cyclesPerFrame ≤ vic.beam.position := Nat.not_le.mpr (position_lt vic.beam)
  cases o with
  | write register v =>
    rw [perform, write_frameDone]
    exact (or_iff_left hnot).symm
  | read => exact (or_iff_left hnot).symm
  | takeFrameDone => exact absurd rfl h
  | tick memory cycles => exact tick_frameDone vic memory cycles

theorem run_frameDone {os : List Operation} (h : ∀ o ∈ os, o ≠ .takeFrameDone) :
    (vic.run os).2.frameDone = true ↔
      vic.frameDone = true ∨ cyclesPerFrame ≤ vic.beam.position + cyclesOf os := by
  induction os generalizing vic with
  | nil => exact (or_iff_left (Nat.not_le.mpr (position_lt vic.beam))).symm
  | cons o os ih =>
    have hframe : cyclesPerFrame = 22152 := rfl
    have hlt := position_lt vic.beam
    obtain ⟨ho, hos⟩ := List.forall_mem_cons.mp h
    rw [run, ih hos, perform_frameDone ho, perform_position, cyclesOf_cons, hframe, or_assoc]
    refine or_congr_right ?_
    omega

/-! ### The line as registers show it -/

theorem read_line (vic : Vic) : 2 * (vic.read 4).toNat + (vic.read 3 >>> 7).toNat = vic.beam.line.val := by
  have hl : vic.beam.line.val < 312 := vic.beam.line.isLt
  have hhigh : (vic.read 4).toNat = vic.beam.line.val / 2 := by
    have hsize : UInt8.size = 256 := rfl
    exact UInt8.toNat_ofNat_of_lt' (by omega)
  have hlow : (vic.read 3 >>> 7).toNat = vic.beam.line.val % 2 := by
    have hbit (v : UInt8) : ((v &&& 0x7F ||| 0x80) >>> 7).toNat = 1 ∧ ((v &&& 0x7F ||| 0) >>> 7).toNat = 0 := by
      obtain ⟨v⟩ := v
      revert v
      decide +kernel
    have hread : vic.read 3 = vic.stored 3 &&& 0x7F ||| (if vic.beam.line.val % 2 = 1 then 0x80 else 0) := rfl
    rw [hread]
    split_ifs with hodd
    · rw [(hbit _).1, hodd]
    · rw [(hbit _).2]
      omega
  omega

/-- The raster is exact. Whatever is done to a chip for `n` cycles, the beam is `n` positions further round the frame
of 22152, the flag has risen if it has come round, and the registers show its line. The counters of the chip keep to
this as well, multiples of four below 284 and lines below 312, and every difference of them, every division and all
pixels put into the picture are in range. -/
theorem raster_exact {vic : Vic} (h : Reachable vic) (a b : Colour) (os : List Operation) :
    let p := 71 * (vic.chip a b).scan.y.toNat + (vic.chip a b).scan.x.toNat / 4 + cyclesOf os
    let after := (vic.run os).2
    (after.beam.line.val = p % 22152 / 71 ∧ after.beam.clock = 4 * (p % 22152 % 71)) ∧
      ((∀ o ∈ os, o ≠ .takeFrameDone) → (after.frameDone = true ↔ vic.frameDone = true ∨ 22152 ≤ p)) ∧
      2 * (after.read 4).toNat + (after.read 3 >>> 7).toNat = after.beam.line.val ∧
      ∃ c, (vic.chip a b).run? os = some c ∧ (∃ a' b', c = after.chip a' b') ∧
        c.scan.y.toNat = after.beam.line.val ∧ c.scan.x.toNat = after.beam.clock ∧
        4 ∣ c.scan.x.toNat ∧ c.scan.x.toNat < 284 ∧ c.scan.y.toNat < 312 := by
  intro p after
  have hp : p = vic.beam.position + cyclesOf os := congrArg (· + cyclesOf os) (scan_position vic.beam)
  have hafter : after.beam.position = p % 22152 := by
    rw [hp]
    exact run_position os
  obtain ⟨hline, hclock⟩ := of_position after.beam
  rw [hafter] at hline hclock
  obtain ⟨a', b', hrun⟩ := run?_chip h.tall a b os
  refine ⟨⟨hline, hclock⟩, fun hkept => ?_, read_line after, after.chip a' b', hrun, ⟨a', b', rfl⟩,
    scan_y_toNat after.beam, scan_x_toNat after.beam, scan_bounds after.beam⟩
  rw [hp]
  exact run_frameDone hkept

/-- Two frames less a cycle, with the height of the characters changed in the middle of a line and the left edge in
the middle of a cell. -/
theorem raster_exact_changing :
    let os : List Operation := [.tick stripes 9000, .write 0x3 0x2F, .tick stripes 21, .write 0x0 0x7F, .read 0x4,
      .tick stripes 35282]
    Reachable oversized ∧ (∀ o ∈ os, o ≠ .takeFrameDone) ∧ (oversized.run os).2.frameDone = true ∧
      (oversized.run os).2.beam.line.val = 311 ∧ (oversized.run os).2.beam.clock = 280 ∧
      ∀ a b, ∃ c, (oversized.chip a b).run? os = some c ∧ c.scan.x.toNat = 280 := by
  intro os
  have hreachable : Reachable oversized :=
    ((((Reachable.new.write 0x0 0x02).write 0x1 0x05).write 0x2 0xA0).write 0x3 0x7F).write 0xF 0x1B
  have hkept : ∀ o ∈ os, o ≠ .takeFrameDone := by
    simp [os]
  obtain ⟨⟨hline, hclock⟩, hdone, -⟩ := raster_exact hreachable black black os
  have hp : 71 * (oversized.chip black black).scan.y.toNat + (oversized.chip black black).scan.x.toNat / 4 +
      cyclesOf os = 44303 := by decide
  rw [hp] at hline hclock
  refine ⟨hreachable, hkept, (hdone hkept).mpr (.inr (by decide)), hline, hclock, fun a b => ?_⟩
  obtain ⟨-, -, -, c, hc, -, -, hx, -⟩ := raster_exact hreachable a b os
  exact ⟨c, hc, hx.trans hclock⟩

end Vic20.Vic
