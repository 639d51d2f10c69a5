import Vic20.Word

/-! A word and its two bytes. -/

namespace Vic20

theorem toNat_word (low high : UInt8) : (word low high).toNat = low.toNat + 256 * high.toNat := by
  have hlow : low.toNat < 2 ^ 8 := low.toNat_lt
  have hhigh := high.toNat_lt
  have hshift : (high.toUInt16 <<< (8 : UInt16)).toNat = high.toNat <<< 8 := by
    rw [UInt16.toNat_shiftLeft, UInt8.toNat_toUInt16]
    refine Nat.mod_eq_of_lt ?_
    rw [Nat.shiftLeft_eq]
    change high.toNat * 256 < 65536
    omega
  rw [word, UInt16.toNat_or, hshift, UInt8.toNat_toUInt16, Nat.or_comm, ← Nat.shiftLeft_add_eq_or_of_lt hlow,
    Nat.shiftLeft_eq]
  omega

/-- The two bytes of a word make the word. -/
theorem word_bytes (w : UInt16) : word (lowByte w) (highByte w) = w := by
  have hlow : (lowByte w).toNat = w.toNat % 256 := UInt16.toNat_toUInt8 w
  have hhigh : (highByte w).toNat = w.toNat / 256 % 256 := by
    rw [highByte, UInt16.toNat_toUInt8, UInt16.toNat_shiftRight, Nat.shiftRight_eq_div_pow]
    rfl
  have hw := w.toNat_lt
  apply UInt16.toNat.inj
  rw [toNat_word, hlow, hhigh]
  omega

end Vic20
