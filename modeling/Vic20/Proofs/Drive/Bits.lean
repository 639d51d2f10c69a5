import Mathlib.Algebra.GroupWithZero.Nat

/-! A byte as it comes over the wire, bit by bit and least significant first. -/

namespace Vic20.Drive

/-- The first `k` bits of a byte. -/
def lowBits (v : UInt8) (k : Nat) : UInt8 := UInt8.ofNat (v.toNat % 2 ^ k)

theorem toNat_lowBits (v : UInt8) (k : Nat) : (lowBits v k).toNat = v.toNat % 2 ^ k :=
  UInt8.toNat_ofNat_of_lt' (Nat.lt_of_le_of_lt (Nat.mod_le _ _) v.toNat_lt)

theorem lowBits_zero (v : UInt8) : lowBits v 0 = 0 := by simp [lowBits, Nat.mod_one]

theorem lowBits_eight (v : UInt8) : lowBits v 8 = v := by
  unfold lowBits
  rw [Nat.mod_eq_of_lt v.toNat_lt, UInt8.ofNat_toNat]

/-- A shift by a number of bits that a byte has. -/
theorem toNat_ofNat_mod {k : Nat} (hk : k < 8) : (UInt8.ofNat k).toNat % 8 = k := by
  rw [UInt8.toNat_ofNat_of_lt' (Nat.lt_trans hk (by decide)), Nat.mod_eq_of_lt hk]

theorem bit_eq_testBit (v : UInt8) {k : Nat} (hk : k < 8) :
    (v >>> UInt8.ofNat k &&& 1 == 0) = !v.toNat.testBit k := by
  have hbit : (v >>> UInt8.ofNat k &&& 1).toNat = 1 &&& v.toNat >>> k := by
    rw [UInt8.toNat_and, UInt8.toNat_shiftRight, toNat_ofNat_mod hk, Nat.and_comm, UInt8.toNat_one]
  rw [Nat.testBit, ← hbit, Bool.eq_iff_iff, beq_iff_eq, ← UInt8.toNat_inj]
  simp

theorem toNat_one_shiftLeft {k : Nat} (hk : k < 8) : ((1 : UInt8) <<< UInt8.ofNat k).toNat = 2 ^ k := by
  rw [UInt8.toNat_shiftLeft, toNat_ofNat_mod hk, UInt8.toNat_one, Nat.one_shiftLeft]
  exact Nat.mod_eq_of_lt (Nat.pow_lt_pow_right (by decide) hk)

/-- A bit joins those before it. -/
theorem lowBits_succ (v : UInt8) {k : Nat} (hk : k < 8) :
    lowBits v k ||| (if v >>> UInt8.ofNat k &&& 1 == 0 then 0 else 1) <<< UInt8.ofNat k =
      lowBits v (k + 1) := by
  have hbit : ((if v >>> UInt8.ofNat k &&& 1 == 0 then 0 else 1) <<< UInt8.ofNat k : UInt8).toNat =
      if v.toNat.testBit k then 2 ^ k else 0 := by
    rw [bit_eq_testBit v hk]
    cases v.toNat.testBit k with
    | false => simp
    | true => exact toNat_one_shiftLeft hk
  apply UInt8.toNat_inj.1
  rw [UInt8.toNat_or, hbit, toNat_lowBits, toNat_lowBits]
  apply Nat.eq_of_testBit_eq
  intro i
  rw [Nat.testBit_or, Nat.testBit_mod_two_pow, Nat.testBit_mod_two_pow]
  by_cases hi : i = k
  · subst hi
    cases v.toNat.testBit i <;> simp
  · have hlt : i < k + 1 ↔ i < k := by omega
    cases v.toNat.testBit k <;> simp [hlt, Ne.symm hi]

theorem ofNat_add_one (k : Nat) : UInt8.ofNat k + 1 = UInt8.ofNat (k + 1) := by
  rw [UInt8.ofNat_add]
  rfl

theorem ofNat_ne_eight {k : Nat} (hk : k < 8) : UInt8.ofNat k ≠ 8 := by
  intro h
  have hk8 := congrArg UInt8.toNat h
  rw [UInt8.toNat_ofNat_of_lt' (Nat.lt_trans hk (by decide))] at hk8
  exact Nat.ne_of_lt hk hk8

theorem shiftRight_succ (v : UInt8) {k : Nat} (hk : k < 7) :
    v >>> UInt8.ofNat k >>> 1 = v >>> UInt8.ofNat (k + 1) := by
  apply UInt8.toNat_inj.1
  rw [UInt8.toNat_shiftRight, UInt8.toNat_shiftRight, UInt8.toNat_shiftRight, toNat_ofNat_mod (by omega),
    toNat_ofNat_mod (by omega)]
  exact (Nat.shiftRight_add v.toNat k 1).symm

end Vic20.Drive
