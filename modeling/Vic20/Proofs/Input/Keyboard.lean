import Mathlib.Data.Nat.Bitwise
import Vic20.Input.Keyboard
import Vic20.Proofs.Drive.Bits

/-! The keyboard's matrix bit by bit. A selection drives one side of it, and the other side shows each key that is
pressed there. -/

namespace Vic20.Keyboard

variable (k : Keyboard)

/-! ### Bits of bytes -/

theorem testBit_not (v : UInt8) {i : Nat} (hi : i < 8) : (~~~v).toNat.testBit i = !v.toNat.testBit i := by
  change (~~~v.toBitVec).getLsbD i = !v.toBitVec.getLsbD i
  rw [BitVec.getLsbD_not, decide_eq_true hi, Bool.true_and]

theorem testBit_bit {n : Nat} (hn : n < 8) (i : Nat) : (bit n).toNat.testBit i = decide (n = i) := by
  rw [bit, Drive.toNat_one_shiftLeft hn, Nat.testBit_two_pow]

theorem lt_of_testBit {v : UInt8} {i : Nat} (h : v.toNat.testBit i = true) : i < 8 := by
  by_contra hi
  have hlt : v.toNat < 2 ^ i :=
    Nat.lt_of_lt_of_le v.toNat_lt (Nat.pow_le_pow_right (by decide) (Nat.le_of_not_lt hi))
  rw [Nat.testBit_lt_two_pow hlt] at h
  cases h

/-- Two bytes are the same if the same bits are low. -/
theorem eq_of_testBit {v w : UInt8} (h : ∀ i < 8, v.toNat.testBit i = false ↔ w.toNat.testBit i = false) : v = w := by
  apply UInt8.toNat_inj.1
  apply Nat.eq_of_testBit_eq
  intro i
  by_cases hi : i < 8
  · have hlow := h i hi
    rw [← Bool.not_eq_true, ← Bool.not_eq_true, not_iff_not] at hlow
    exact Bool.eq_iff_iff.2 hlow
  · rw [Bool.eq_false_iff.2 fun hv => hi (lt_of_testBit hv), Bool.eq_false_iff.2 fun hw => hi (lt_of_testBit hw)]

/-- Two bytes meet where a bit is set in both. -/
theorem and_meets (v w : UInt8) :
    (v &&& w != 0) = true ↔ ∃ i < 8, v.toNat.testBit i = true ∧ w.toNat.testBit i = true := by
  rw [bne_iff_ne, ne_eq, ← UInt8.toNat_inj, UInt8.toNat_and]
  constructor
  · intro hne
    obtain ⟨i, hi⟩ := Nat.exists_testBit_of_ne_zero hne
    rw [Nat.testBit_and, Bool.and_eq_true] at hi
    exact ⟨i, lt_of_testBit hi.1, hi⟩
  · rintro ⟨i, hi, hv, hw⟩ hzero
    have hbit := congrArg (Nat.testBit · i) hzero
    simp [hv, hw] at hbit

theorem and_bit (v : UInt8) {n : Nat} (hn : n < 8) : (v &&& bit n != 0) = v.toNat.testBit n := by
  rw [Bool.eq_iff_iff, and_meets]
  constructor
  · rintro ⟨i, hi, hv, hbit⟩
    rw [testBit_bit hn, decide_eq_true_eq] at hbit
    rwa [hbit]
  · intro hv
    exact ⟨n, hn, hv, by simp [testBit_bit hn]⟩

/-- Bytes put together, bit by bit. -/
theorem testBit_foldl {α : Type} (l : List α) (p : α → Bool) (f : α → UInt8) (found : UInt8) (i : Nat) :
    (l.foldl (fun found a => if p a then found ||| f a else found) found).toNat.testBit i =
      (found.toNat.testBit i || l.any fun a => p a && (f a).toNat.testBit i) := by
  induction l generalizing found with
  | nil => simp
  | cons a l ih =>
    rw [List.foldl_cons, ih, List.any_cons]
    cases p a <;> simp [Bool.or_assoc]

/-! ### Keys -/

theorem isPressed_eq (r : Fin 8) {c : Nat} (hc : c < 8) : k.isPressed r c = k.rows[r].toNat.testBit c := by
  rw [isPressed, dif_pos ⟨r.isLt, hc⟩]
  exact and_bit k.rows[r] hc

/-- A key is as it was last set, and no other key with it. -/
theorem isPressed_set (pressed : Bool) {row column : Nat} (hrow : row < 8) (hcolumn : column < 8) (r : Fin 8) {c : Nat}
    (hc : c < 8) : (k.set row column pressed).isPressed r c =
      if row = r ∧ column = c then pressed else k.isPressed r c := by
  rw [isPressed_eq _ r hc, isPressed_eq _ r hc, set, dif_pos ⟨hrow, hcolumn⟩]
  by_cases hr : row = r
  · subst hr
    simp only [Fin.getElem_fin, Vector.getElem_set_self, true_and]
    cases pressed with
    | false =>
      rw [if_neg Bool.false_ne_true, UInt8.toNat_and, Nat.testBit_and, testBit_not _ hc, testBit_bit hcolumn]
      by_cases hkey : column = c <;> simp [hkey]
    | true =>
      rw [if_pos rfl, UInt8.toNat_or, Nat.testBit_or, testBit_bit hcolumn]
      by_cases hkey : column = c <;> simp [hkey]
  · simp [hr]

theorem columnsOf_testBit (mask : UInt8) {c : Nat} (hc : c < 8) :
    (k.columnsOf mask).toNat.testBit c = true ↔ ∃ r < 8, mask.toNat.testBit r = true ∧ k.isPressed r c = true := by
  rw [columnsOf, testBit_foldl]
  simp only [UInt8.toNat_zero, Nat.zero_testBit, Bool.false_or, List.any_eq_true, List.mem_finRange, true_and,
    Bool.and_eq_true]
  constructor
  · rintro ⟨r, hmask, hkey⟩
    exact ⟨r, r.isLt, (and_bit mask r.isLt).symm.trans hmask, (isPressed_eq k r hc).trans hkey⟩
  · rintro ⟨r, hr, hmask, hkey⟩
    exact ⟨⟨r, hr⟩, (and_bit mask hr).trans hmask, (isPressed_eq k ⟨r, hr⟩ hc).symm.trans hkey⟩

theorem rowsOf_testBit (mask : UInt8) {r : Nat} (hr : r < 8) :
    (k.rowsOf mask).toNat.testBit r = true ↔ ∃ c < 8, mask.toNat.testBit c = true ∧ k.isPressed r c = true := by
  rw [rowsOf, testBit_foldl]
  simp only [UInt8.toNat_zero, Nat.zero_testBit, Bool.false_or, List.any_eq_true, List.mem_finRange, true_and,
    Bool.and_eq_true, and_meets]
  constructor
  · rintro ⟨r', ⟨c, hc, hkey, hmask⟩, hbit⟩
    rw [testBit_bit r'.isLt, decide_eq_true_eq] at hbit
    subst hbit
    exact ⟨c, hc, hmask, (isPressed_eq k r' hc).trans hkey⟩
  · rintro ⟨c, hc, hmask, hkey⟩
    exact ⟨⟨r, hr⟩, ⟨c, hc, (isPressed_eq k ⟨r, hr⟩ hc).symm.trans hkey, hmask⟩, by simp [testBit_bit hr]⟩

/-- What a selection of rows shows: a column is low where a key of it is pressed in a row that is low. -/
theorem selectRows_testBit (port : UInt8) {c : Nat} (hc : c < 8) :
    (k.selectRows port).columnStatus.toNat.testBit c = false ↔
      ∃ r < 8, port.toNat.testBit r = false ∧ k.isPressed r c = true := by
  change (~~~(k.columnsOf (~~~port))).toNat.testBit c = false ↔ _
  rw [testBit_not _ hc, Bool.not_eq_false', columnsOf_testBit k _ hc]
  refine exists_congr fun r => and_congr_right fun hr => ?_
  rw [testBit_not _ hr, Bool.not_eq_true']

theorem selectColumns_testBit (port : UInt8) {r : Nat} (hr : r < 8) :
    (k.selectColumns port).rowStatus.toNat.testBit r = false ↔
      ∃ c < 8, port.toNat.testBit c = false ∧ k.isPressed r c = true := by
  change (~~~(k.rowsOf (~~~port))).toNat.testBit r = false ↔ _
  rw [testBit_not _ hr, Bool.not_eq_false', rowsOf_testBit k _ hr]
  refine exists_congr fun c => and_congr_right fun hc => ?_
  rw [testBit_not _ hc, Bool.not_eq_true']

end Vic20.Keyboard
