import Mathlib.Algebra.Order.Ring.Int
import Vic20.Via.Timers

/-! The counters of the timers as integers. What ticks take off a counter comes off its integer too as long as that
stays among the words of 32 bits; beyond them it comes off but for a multiple of the range. The low sixteen bits do not
tell the two apart. A counter that has run out is above the lowest word by far, so that what a timer gains then is
always exact. -/

namespace Vic20.Via

theorem toInt_widen (w : UInt16) : (widen w).toInt = w.toNat := by
  have hword := w.toNat_lt
  change w.toUInt32.toBitVec.toInt = _
  rw [BitVec.toInt_eq_toNat_bmod, UInt32.toNat_toBitVec, UInt16.toNat_toUInt32]
  simp only [Int.bmod_def]
  omega

theorem toNat_lowWord (c : Int32) : ((lowWord c).toNat : Int) = c.toInt % 0x10000 := by
  have hword := c.toUInt32.toNat_lt
  have hcounter : c.toInt = (c.toUInt32.toNat : Int).bmod (2 ^ 32) := c.toBitVec.toInt_eq_toNat_bmod
  rw [lowWord, UInt32.toNat_toUInt16, hcounter]
  simp only [Int.bmod_def]
  omega

/-- Cycles come off a counter. -/
theorem toInt_elapse (c : Int32) (cycles : UInt32) :
    (c - cycles.toInt32).toInt = (c.toInt - cycles.toNat).bmod 0x100000000 := by
  have hcycles : cycles.toInt32.toInt = (cycles.toNat : Int).bmod (2 ^ 32) := cycles.toBitVec.toInt_eq_toNat_bmod
  rw [Int32.toInt_sub, hcycles]
  exact Int.sub_bmod_bmod

/-- They come off exactly if the counter does not pass the lowest word. -/
theorem toInt_elapse_exact {c : Int32} {cycles : UInt32} (h : -0x80000000 ≤ c.toInt - cycles.toNat) :
    (c - cycles.toInt32).toInt = c.toInt - cycles.toNat := by
  have hcounter := c.toInt_lt
  rw [toInt_elapse]
  exact Int.bmod_eq_of_le_mul_two (by omega) (by omega)

/-- A counter that has run out gains a word, and a little, exactly. -/
theorem toInt_gain {c gain : Int32} (hout : c.toInt ≤ 0) (hgain : 0 ≤ gain.toInt) :
    (c + gain).toInt = c.toInt + gain.toInt := by
  have hcounter := c.le_toInt
  have hmost := gain.toInt_lt
  rw [Int32.toInt_add]
  exact Int.bmod_eq_of_le_mul_two (by omega) (by omega)

theorem toInt_period (latch : UInt16) : (widen latch + 2).toInt = latch.toNat + 2 := by
  have hlatch := latch.toNat_lt
  rw [Int32.toInt_add, toInt_widen]
  exact Int.bmod_eq_of_le_mul_two (by simp; omega) (by simp; omega)

theorem pos_iff {c : Int32} : c > 0 ↔ 0 < c.toInt := Int32.lt_iff_toInt_lt

theorem nonpos_iff {c : Int32} : c ≤ 0 ↔ c.toInt ≤ 0 := Int32.le_iff_toInt_le

/-! ### What a tick makes of them

`left` stands for what is left of a counter when the cycles have come off. -/

namespace Timer1

variable {t : Timer1} {freeRun : Bool} {cycles : Int32} {left : Int}

theorem tick_latch : (t.tick freeRun cycles).1.latch = t.latch := by
  unfold tick
  dsimp only
  split_ifs <;> rfl

variable (hleft : (t.counter - cycles).toInt = left)

include hleft

theorem tick_running (hruns : 0 < left) : t.tick freeRun cycles = ({ t with counter := t.counter - cycles }, false) :=
  if_pos (pos_iff.2 (hleft ▸ hruns))

theorem tick_out (hout : left ≤ 0) :
    t.tick freeRun cycles =
      if freeRun then ({ t with counter := t.counter - cycles + (widen t.latch + 2) }, true)
      else if t.fired then ({ t with counter := widen (lowWord (t.counter - cycles)) }, false)
      else ({ t with counter := t.counter - cycles + 0xFFFF, fired := true }, true) :=
  if_neg (mt pos_iff.1 (hleft ▸ not_lt.2 hout))

theorem tick_counter : (t.tick freeRun cycles).1.counter.toInt =
    if 0 < left then left
    else if freeRun then left + (t.latch.toNat + 2) else if t.fired then left % 0x10000 else left + 0xFFFF := by
  split
  next hruns =>
    rw [tick_running hleft hruns]
    exact hleft
  next hout =>
    rw [tick_out hleft (not_lt.1 hout)]
    subst hleft
    split_ifs
    · have hperiod := toInt_period t.latch
      rw [toInt_gain (not_lt.1 hout) (by omega), hperiod]
    · rw [toInt_widen, toNat_lowWord]
    · exact toInt_gain (not_lt.1 hout) (by decide)

theorem tick_fired : (t.tick freeRun cycles).1.fired = (t.fired || !freeRun && decide (left ≤ 0)) := by
  by_cases hruns : 0 < left
  · simp [tick_running hleft hruns, hruns]
  · have hout := not_lt.1 hruns
    rw [tick_out hleft hout]
    cases freeRun <;> cases t.fired <;> simp [hout]

theorem tick_expired : (t.tick freeRun cycles).2 = (decide (left ≤ 0) && (freeRun || !t.fired)) := by
  by_cases hruns : 0 < left
  · simp [tick_running hleft hruns, hruns]
  · have hout := not_lt.1 hruns
    rw [tick_out hleft hout]
    cases freeRun <;> cases t.fired <;> simp [hout]

end Timer1

namespace Timer2

variable {t : Timer2} {cycles : Int32} {left : Int} (hleft : (t.counter - cycles).toInt = left)

include hleft

theorem tick_expiring (hout : left ≤ 0) (hfired : t.fired = false) :
    t.tick false cycles = ({ t with counter := t.counter - cycles + 0xFFFF, fired := true }, true) := by
  have hcounter : t.counter - cycles ≤ 0 := nonpos_iff.2 (hleft ▸ hout)
  simp [tick, hcounter, hfired]

theorem tick_counting (hmore : left ≤ 0 → t.fired = true) :
    t.tick false cycles = ({ t with counter := t.counter - cycles }, false) := by
  have hcounter : t.counter - cycles ≤ 0 → t.fired = true := fun h => hmore (hleft ▸ nonpos_iff.1 h)
  simpa [tick] using hcounter

theorem tick_counter : (t.tick false cycles).1.counter.toInt =
    if left ≤ 0 ∧ t.fired = false then left + 0xFFFF else left := by
  split
  next hout =>
    rw [tick_expiring hleft hout.1 hout.2]
    subst hleft
    exact toInt_gain hout.1 (by decide)
  next hmore =>
    rw [tick_counting hleft (by simpa using hmore)]
    exact hleft

theorem tick_fired : (t.tick false cycles).1.fired = (t.fired || decide (left ≤ 0)) := by
  by_cases hout : left ≤ 0 ∧ t.fired = false
  · simp [tick_expiring hleft hout.1 hout.2, hout.1]
  · have hmore : left ≤ 0 → t.fired = true := by simpa using hout
    simpa [tick_counting hleft hmore] using hmore

theorem tick_expired : (t.tick false cycles).2 = (decide (left ≤ 0) && !t.fired) := by
  by_cases hout : left ≤ 0 ∧ t.fired = false
  · simp [tick_expiring hleft hout.1 hout.2, hout.1, hout.2]
  · have hmore : left ≤ 0 → t.fired = true := by simpa using hout
    simpa [tick_counting hleft hmore] using hmore

end Timer2
end Vic20.Via
