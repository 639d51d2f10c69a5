import Vic20.Text.Utf8

/-! The first byte of a text in ASCII is its first character. The bytes of a text are those of its characters. -/

namespace Vic20.Utf8

theorem ofNat_eq_dollar {v : UInt8} (h : v < 0x80) : '$' = Char.ofNat v.toNat ↔ v = 0x24 := by
  obtain ⟨v⟩ := v
  revert v
  decide +kernel

theorem startsWith_dollar {v : UInt8} {rest : List UInt8} (h : v < 0x80) :
    (text (v :: rest)).startsWith "$" = true ↔ v = 0x24 := by
  have hlead : lead? v = some ⟨0, 0x80, 0xBF, v.toNat⟩ := if_pos (UInt8.lt_iff_toNat_lt.1 h)
  have htext : (text (v :: rest)).toList = Char.ofNat v.toNat :: decode rest := by
    unfold text
    rw [String.toList_ofList, decode, hlead]
    rfl
  rw [String.startsWith_string_iff, htext, ← ofNat_eq_dollar h]
  exact List.cons_prefix_cons.trans (and_iff_left List.nil_prefix)

theorem toList_loop (b : ByteArray) (i : Nat) (r : List UInt8) :
    ByteArray.toList.loop b i r = r.reverse ++ b.data.toList.drop i := by
  fun_induction ByteArray.toList.loop b i r with
  | case1 i r hi ih =>
    have hlength : i < b.data.toList.length := by simpa using hi
    have hget : b.get! i = b.data.toList[i] := by
      rw [Array.getElem_toList]
      exact getElem!_pos b.data i hi
    rw [ih, List.drop_eq_getElem_cons hlength, hget, List.reverse_cons, List.append_assoc, List.singleton_append]
  | case2 i r hi =>
    rw [List.drop_eq_nil_of_le (by simpa using hi), List.append_nil]

theorem bytes_ofList (cs : List Char) : bytes (String.ofList cs) = cs.flatMap String.utf8EncodeChar := by
  rw [bytes, ByteArray.toList, toList_loop]
  exact List.toList_data_toByteArray

theorem mem_bytes_of_subset {part cs : List Char} (h : part ⊆ cs) {v : UInt8}
    (hv : v ∈ bytes (String.ofList part)) : v ∈ bytes (String.ofList cs) := by
  rw [bytes_ofList, List.mem_flatMap] at hv ⊢
  obtain ⟨c, hc, hv⟩ := hv
  exact ⟨c, h hc, hv⟩

end Vic20.Utf8
