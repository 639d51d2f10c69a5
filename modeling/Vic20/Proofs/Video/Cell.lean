import Mathlib.Tactic.IntervalCases
import Mathlib.Tactic.SplitIfs
import Vic20.Video.Raster

/-! A cell of the picture, pixel by pixel. The pairs of bits of a shape, or its bits, are places in a list of
colours. The halves that are drawn from a cell show just these (`halves_first`, `halves_second`), and a group
of four pixels that is plotted changes those pixels and no others (`pixel_plot`). -/

namespace Vic20

namespace Video

/-- One of the four pixels, from the left. -/
def Group.pixel (g : Group) : Nat → Colour
  | 0 => g.p0
  | 1 => g.p1
  | 2 => g.p2
  | _ => g.p3

/-- The colour for two bits of a shape. -/
def pairColour (ink : Ink) (foreground : Colour) (bits : UInt8) (shift : Nat) : Colour :=
  #v[ink.background, ink.border, foreground, ink.auxiliary][bits.toNat >>> shift % 4]

/-- The colour for one bit of a shape, which is inverted before. -/
def bitColour (ink : Ink) (foreground : Colour) (bits : UInt8) (shift : Nat) : Colour :=
  #v[ink.background, foreground][(bits ^^^ ink.invert).toNat >>> shift % 2]

/-- A pixel of a cell's line, by the cell's nibble and the bits of its shape. The high bit of the nibble asks
for pixels in pairs. -/
def cellPixel (ink : Ink) (nibble bits : UInt8) (p : Nat) : Colour :=
  if nibble.toNat.testBit 3 then pairColour ink (lowColour nibble) bits (6 - 2 * (p / 2))
  else bitColour ink (lowColour nibble) bits (7 - p)

theorem and_eight_eq_testBit (v : UInt8) : (v &&& 0x08 != 0) = v.toNat.testBit 3 := by
  obtain ⟨v⟩ := v
  revert v
  decide +kernel

theorem toNat_shiftRight_and (v : UInt8) {k : Nat} (hk : k < 8) :
    (v >>> UInt8.ofNat k &&& 3).toNat = v.toNat >>> k % 4 ∧
      (v >>> UInt8.ofNat k &&& 1).toNat = v.toNat >>> k % 2 := by
  rw [UInt8.toNat_and, UInt8.toNat_and, UInt8.toNat_shiftRight,
    UInt8.toNat_ofNat_of_lt' (Nat.lt_trans hk (by decide)), Nat.mod_eq_of_lt hk]
  exact ⟨Nat.and_two_pow_sub_one_eq_mod _ 2, Nat.and_two_pow_sub_one_eq_mod _ 1⟩

theorem match_pairColour (ink : Ink) (foreground : Colour) (bits : UInt8) {k : Nat} (hk : k < 8) :
    (match (bits >>> UInt8.ofNat k &&& 3).toNat with
      | 0 => ink.background
      | 1 => ink.border
      | 2 => foreground
      | _ => ink.auxiliary) = pairColour ink foreground bits k := by
  have hplace : bits.toNat >>> k % 4 = 0 ∨ bits.toNat >>> k % 4 = 1 ∨ bits.toNat >>> k % 4 = 2 ∨
      bits.toNat >>> k % 4 = 3 := by omega
  rw [(toNat_shiftRight_and bits hk).1]
  rcases hplace with h | h | h | h <;> simp only [pairColour, h] <;> rfl

theorem ite_bitColour (ink : Ink) (foreground : Colour) (bits : UInt8) {k : Nat} (hk : k < 8) :
    (if (bits ^^^ ink.invert) >>> UInt8.ofNat k &&& 1 == 0 then ink.background else foreground) =
      bitColour ink foreground bits k := by
  have hplace : (bits ^^^ ink.invert).toNat >>> k % 2 = 0 ∨ (bits ^^^ ink.invert).toNat >>> k % 2 = 1 := by
    omega
  have hbit : ((bits ^^^ ink.invert) >>> UInt8.ofNat k &&& 1 == 0) = true ↔
      (bits ^^^ ink.invert).toNat >>> k % 2 = 0 := by
    rw [← (toNat_shiftRight_and _ hk).2, beq_iff_eq, ← UInt8.toNat_inj]
    rfl
  rcases hplace with h | h <;> simp only [hbit, bitColour, h] <;> rfl

/-- The two halves of a cell's line. -/
def halves (ink : Ink) (nibble bits : UInt8) : Group × Group :=
  if nibble &&& 0x08 != 0 then Vic.multicolour ink (lowColour nibble) bits
  else Vic.hires ink (lowColour nibble) bits

theorem multicolour_eq (ink : Ink) (foreground : Colour) (bits : UInt8) :
    Vic.multicolour ink foreground bits =
      let slot := pairColour ink foreground bits
      (⟨slot 6, slot 6, slot 4, slot 4⟩, ⟨slot 2, slot 2, slot 0, slot 0⟩) := by
  have hslot {k : Nat} (hk : k < 8) := match_pairColour ink foreground bits hk
  simp only [← hslot (k := 6) (by decide), ← hslot (k := 4) (by decide), ← hslot (k := 2) (by decide),
    ← hslot (k := 0) (by decide)]
  rfl

theorem hires_eq (ink : Ink) (foreground : Colour) (bits : UInt8) :
    Vic.hires ink foreground bits =
      let slot := bitColour ink foreground bits
      (⟨slot 7, slot 6, slot 5, slot 4⟩, ⟨slot 3, slot 2, slot 1, slot 0⟩) := by
  have hslot {k : Nat} (hk : k < 8) := ite_bitColour ink foreground bits hk
  simp only [← hslot (k := 7) (by decide), ← hslot (k := 6) (by decide), ← hslot (k := 5) (by decide),
    ← hslot (k := 4) (by decide), ← hslot (k := 3) (by decide), ← hslot (k := 2) (by decide),
    ← hslot (k := 1) (by decide), ← hslot (k := 0) (by decide)]
  rfl

/-- The halves show the cell's pixels, four each. -/
theorem halves_pixel (ink : Ink) (nibble bits : UInt8) {p : Nat} (hp : p < 4) :
    (halves ink nibble bits).1.pixel p = cellPixel ink nibble bits p ∧
      (halves ink nibble bits).2.pixel p = cellPixel ink nibble bits (p + 4) := by
  unfold halves cellPixel
  rw [and_eight_eq_testBit, multicolour_eq, hires_eq]
  split_ifs <;> interval_cases p <;> exact ⟨rfl, rfl⟩

theorem getD_set {α : Type} {n i : Nat} (v : Vector α n) (hi : i < n) (a : α) (j : Nat) (d : α) :
    (v.set i a hi).getD j d = if i = j then a else v.getD j d := by
  simp only [Vector.getD, Vector.toArray_set, Array.getD_eq_getD_getElem?, Array.getElem?_set]
  split_ifs <;> rfl

end Video

namespace Vic

open Video

theorem beam_x_le (vic : Vic) : vic.beam.x ≤ 216 := by
  have hc : vic.beam.cycle.val < 71 := vic.beam.cycle.isLt
  have hx : vic.beam.x = 4 * vic.beam.cycle.val - 64 := rfl
  omega

/-- Plotting changes the four pixels under the beam and no others. -/
theorem pixel_plot (vic : Vic) (g : Group) {x : Nat} (hx : x < pictureWidth) (y : Nat) :
    (vic.plot g).pixel x y =
      if y = vic.beam.y ∧ vic.beam.x ≤ x ∧ x < vic.beam.x + 4 then g.pixel (x - vic.beam.x)
      else vic.pixel x y := by
  have hbx := vic.beam_x_le
  have ho : vic.beam.offset = vic.beam.y * pictureWidth + vic.beam.x := rfl
  have hwidth := Beam.pictureWidth_eq
  unfold pixel plot
  rw [getD_set, getD_set, getD_set, getD_set]
  by_cases hin : y = vic.beam.y ∧ vic.beam.x ≤ x ∧ x < vic.beam.x + 4
  · obtain ⟨k, rfl⟩ := Nat.exists_eq_add_of_le hin.2.1
    have hk : k < 4 := by omega
    have hplace : y * pictureWidth + (vic.beam.x + k) = vic.beam.offset + k := by
      rw [hin.1, ho, Nat.add_assoc]
    rw [if_pos hin, hplace, Nat.add_sub_cancel_left]
    interval_cases k <;> simp [Group.pixel]
  · have hplace {k : Nat} (hk : k < 4) : vic.beam.offset + k ≠ y * pictureWidth + x := by
      rw [ho, hwidth]
      omega
    have hfirst := hplace (k := 0) (by decide)
    rw [Nat.add_zero] at hfirst
    rw [if_neg hin, if_neg (hplace (k := 3) (by decide)), if_neg (hplace (k := 2) (by decide)),
      if_neg (hplace (k := 1) (by decide)), if_neg hfirst]

end Vic
end Vic20
