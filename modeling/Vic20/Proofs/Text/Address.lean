import Mathlib.Data.List.Forall2
import Mathlib.Data.Nat.Digits.Defs
import Mathlib.Tactic.Common
import Vic20.Inspect
import Vic20.Text.Numeral

/-! Which texts are addresses, and of which words. A numeral is refused at the first digit that takes it to the limit,
and that refuses only what is too large: a number does not fall when a digit is put behind it, so a numeral is read
exactly when its whole value is below the limit, with any number of zeros in front. A word is read back from the text
that shows it. -/

namespace Vic20

namespace Numeral

/-! ### Digits -/

def lowerRow : List Char := "0123456789abcdefghijklmnopqrstuvwxyz".toList

def upperRow : List Char := "0123456789ABCDEFGHIJKLMNOPQRSTUVWXYZ".toList

/-- A digit is the place of its character in the row of digits, in lower or in upper case. -/
def IsDigit (base : Nat) (c : Char) (d : Nat) : Prop := d < base ∧ (lowerRow[d]? = some c ∨ upperRow[d]? = some c)

/-- A row goes on with twenty-six letters from code `a` on. -/
theorem getElem?_row {row : List Char} {a d : Nat} {c : Char}
    (hrow : row.map Char.toNat = List.range' 48 10 ++ List.range' a 26) :
    row[d]? = some c ↔ d < 10 ∧ c.toNat = 48 + d ∨ 10 ≤ d ∧ d < 36 ∧ c.toNat + 10 = a + d := by
  have hcode : row[d]? = some c ↔ (row.map Char.toNat)[d]? = some c.toNat := by
    rw [List.getElem?_map, ← Option.map_some]
    exact (Option.map_injective fun _ _ => Char.toNat_inj.1).eq_iff.symm
  rw [hcode, hrow, List.getElem?_append, List.length_range']
  split
  case isTrue h =>
    rw [List.getElem?_range' h, Option.some.injEq]
    omega
  case isFalse h =>
    rw [List.getElem?_eq_some_iff]
    simp only [List.length_range', List.getElem_range', exists_prop]
    omega

theorem digit?_eq_some_iff {base : Nat} {c : Char} {d : Nat} : digit? base c = some d ↔ IsDigit base c d := by
  have hlower : lowerRow.map Char.toNat = List.range' 48 10 ++ List.range' 97 26 := by decide
  have hupper : upperRow.map Char.toNat = List.range' 48 10 ++ List.range' 65 26 := by decide
  rw [IsDigit, getElem?_row hlower, getElem?_row hupper]
  simp only [digit?, Char.le_def, UInt32.le_iff_toNat_le, Char.toNat_val, Char.reduceToNat,
    Option.ite_none_right_eq_some, Option.some.injEq]
  split_ifs <;> omega

theorem not_isDigit_plus {base d : Nat} : ¬IsDigit base '+' d := by
  rw [← digit?_eq_some_iff]
  simp [digit?]

/-! ### Numerals -/

/-- One or more digits, most significant first, and their value. -/
def Spells (base : Nat) (cs : List Char) (n : Nat) : Prop :=
  ∃ ds, List.Forall₂ (IsDigit base) cs ds ∧ ds ≠ [] ∧ Nat.ofDigits base ds.reverse = n

/-- A numeral is spelled, with or without a plus sign in front. -/
inductive IsNumeral (base : Nat) : List Char → Nat → Prop
  | plain {cs n} (h : Spells base cs n) : IsNumeral base cs n
  | plus {cs n} (h : Spells base cs n) : IsNumeral base ('+' :: cs) n

theorem extend?_eq_some_iff {base limit n m : Nat} {c : Char} :
    extend? base limit n c = some m ↔ ∃ d, IsDigit base c d ∧ n * base + d = m ∧ m < limit := by
  simp only [extend?, Option.bind_eq_bind, Option.bind_eq_some_iff, digit?_eq_some_iff, Option.ite_none_right_eq_some,
    Option.some.injEq]
  refine exists_congr fun d => and_congr_right fun _ => ?_
  constructor
  · rintro ⟨hlimit, rfl⟩
    exact ⟨rfl, hlimit⟩
  · rintro ⟨rfl, hlimit⟩
    exact ⟨hlimit, rfl⟩

/-- Reading on from `n` gives the number with all the digits behind it. -/
theorem foldlM_extend?_eq_some_iff {base limit n m : Nat} {cs : List Char} (hn : n < limit) :
    cs.foldlM (extend? base limit) n = some m ↔
      ∃ ds, List.Forall₂ (IsDigit base) cs ds ∧
        n * base ^ ds.length + Nat.ofDigits base ds.reverse = m ∧ m < limit := by
  induction cs generalizing n with
  | nil =>
    simp only [List.foldlM_nil, Option.pure_def, Option.some.injEq, List.forall₂_nil_left_iff, exists_eq_left,
      List.length_nil, pow_zero, mul_one, List.reverse_nil, Nat.ofDigits_nil, add_zero]
    constructor
    · rintro rfl
      exact ⟨rfl, hn⟩
    · exact And.left
  | cons c cs ih =>
    rw [List.foldlM_cons, Option.bind_eq_bind, Option.bind_eq_some_iff]
    constructor
    · rintro ⟨k, hk, hread⟩
      obtain ⟨d, hd, rfl, hlimit⟩ := extend?_eq_some_iff.1 hk
      obtain ⟨ds, hds, hm, hmlimit⟩ := (ih hlimit).1 hread
      refine ⟨d :: ds, .cons hd hds, ?_, hmlimit⟩
      rw [List.length_cons, Nat.ofDigits_reverse_cons, ← hm]
      ring
    · rintro ⟨_, hall, hm, hmlimit⟩
      obtain ⟨d, ds, hd, hds, rfl⟩ := List.forall₂_cons_left_iff.1 hall
      have hm : (n * base + d) * base ^ ds.length + Nat.ofDigits base ds.reverse = m := by
        rw [← hm, List.length_cons, Nat.ofDigits_reverse_cons]
        ring
      -- Whatever follows, the number is at least what has been read of it, so it was not refused on the way.
      have hlimit : n * base + d < limit := by
        have hbase : 0 < base := Nat.zero_lt_of_lt hd.1
        calc n * base + d ≤ (n * base + d) * base ^ ds.length := Nat.le_mul_of_pos_right _ (Nat.pow_pos hbase)
          _ ≤ m := hm ▸ Nat.le_add_right _ _
          _ < limit := hmlimit
      exact ⟨n * base + d, extend?_eq_some_iff.2 ⟨d, hd, rfl, hlimit⟩, (ih hlimit).2 ⟨ds, hds, hm, hmlimit⟩⟩

theorem foldlM_zero_eq_some_iff {base limit n : Nat} {c : Char} {cs : List Char} (hlimit : 0 < limit) :
    (c :: cs).foldlM (extend? base limit) 0 = some n ↔ Spells base (c :: cs) n ∧ n < limit := by
  rw [foldlM_extend?_eq_some_iff hlimit]
  simp only [zero_mul, zero_add, Spells]
  constructor
  · rintro ⟨ds, hds, hn, hnlimit⟩
    refine ⟨⟨ds, hds, ?_, hn⟩, hnlimit⟩
    rintro rfl
    cases hds
  · rintro ⟨⟨ds, hds, -, hn⟩, hnlimit⟩
    exact ⟨ds, hds, hn, hnlimit⟩

theorem not_spells_nil {base n : Nat} : ¬Spells base [] n := by
  rintro ⟨ds, hds, hne, -⟩
  cases hds
  exact hne rfl

theorem not_spells_plus {base n : Nat} {cs : List Char} : ¬Spells base ('+' :: cs) n := by
  rintro ⟨ds, hds, -⟩
  obtain ⟨d, -, hd, -⟩ := List.forall₂_cons_left_iff.1 hds
  exact not_isDigit_plus hd

theorem isNumeral_iff {base n : Nat} {text : List Char} : IsNumeral base text n ↔ Spells base (unsigned text) n := by
  unfold unsigned
  split
  case h_1 cs =>
    constructor
    · intro h
      cases h with
      | plain h => exact absurd h not_spells_plus
      | plus h => exact h
    · exact .plus
  case h_2 hplus =>
    constructor
    · intro h
      cases h with
      | plain h => exact h
      | plus h => exact absurd rfl (hplus _)
    · exact .plain

/-- A numeral is read when its value is below the limit, and only then. -/
theorem parse?_eq_some_iff {base limit n : Nat} {text : List Char} (hlimit : 0 < limit) :
    parse? base limit text = some n ↔ IsNumeral base text n ∧ n < limit := by
  rw [isNumeral_iff, parse?]
  split
  case h_1 h =>
    rw [h]
    exact iff_of_false nofun fun ⟨hspells, _⟩ => not_spells_nil hspells
  case h_2 c cs h =>
    rw [h]
    exact foldlM_zero_eq_some_iff hlimit

end Numeral

/-! ### Addresses -/

open Numeral

/-- What marks an address in base sixteen. -/
def hexMarks : List (List Char) := [['0', 'x'], ['0', 'X'], ['$']]

/-- A numeral in base sixteen behind a mark, or in base ten without one. -/
inductive IsAddress : List Char → Nat → Prop
  | hex {mark cs n} (hmark : mark ∈ hexMarks) (h : IsNumeral 16 cs n) : IsAddress (mark ++ cs) n
  | decimal {cs n} (hmark : ∀ mark ∈ hexMarks, ¬mark <+: cs) (h : IsNumeral 10 cs n) : IsAddress cs n

theorem addressDigits_marked {mark : List Char} (hmark : mark ∈ hexMarks) (cs : List Char) :
    addressDigits (mark ++ cs) = (16, cs) := by
  simp only [hexMarks, List.mem_cons, List.not_mem_nil, or_false] at hmark
  obtain rfl | rfl | rfl := hmark <;> rfl

theorem addressDigits_plain {cs : List Char} (hmark : ∀ mark ∈ hexMarks, ¬mark <+: cs) :
    addressDigits cs = (10, cs) := by
  unfold addressDigits
  split
  case h_1 cs => exact absurd ⟨cs, rfl⟩ (hmark ['0', 'x'] (by decide))
  case h_2 cs => exact absurd ⟨cs, rfl⟩ (hmark ['0', 'X'] (by decide))
  case h_3 cs => exact absurd ⟨cs, rfl⟩ (hmark ['$'] (by decide))
  case h_4 => rfl

theorem isAddress_iff {cs : List Char} {n : Nat} :
    IsAddress cs n ↔ IsNumeral (addressDigits cs).1 (addressDigits cs).2 n := by
  constructor
  · intro h
    cases h with
    | hex hmark h => rwa [addressDigits_marked hmark]
    | decimal hmark h => rwa [addressDigits_plain hmark]
  · intro h
    by_cases hmark : ∃ mark ∈ hexMarks, mark <+: cs
    · obtain ⟨mark, hmark, cs, rfl⟩ := hmark
      rw [addressDigits_marked hmark] at h
      exact .hex hmark h
    · push Not at hmark
      rw [addressDigits_plain hmark] at h
      exact .decimal hmark h

theorem parseAddress_eq_some_iff {text : String} {v : UInt16} :
    parseAddress text = some v ↔ IsAddress text.toList v.toNat := by
  simp only [parseAddress, Option.map_eq_some_iff, parse?_eq_some_iff (show 0 < 0x10000 by decide), ← isAddress_iff]
  constructor
  · rintro ⟨n, ⟨h, hn⟩, rfl⟩
    rwa [UInt16.toNat_ofNat_of_lt' hn]
  · intro h
    exact ⟨v.toNat, ⟨h, v.toNat_lt⟩, UInt16.ofNat_toNat⟩

theorem parseAddress_eq_none_iff {text : String} :
    parseAddress text = none ↔ ¬∃ n, IsAddress text.toList n ∧ n ≤ 65535 := by
  constructor
  · rintro hnone ⟨n, h, hn⟩
    have hv : (UInt16.ofNat n).toNat = n := UInt16.toNat_ofNat_of_lt' (Nat.lt_succ_of_le hn)
    have hsome : parseAddress text = some (UInt16.ofNat n) := parseAddress_eq_some_iff.2 (hv.symm ▸ h)
    rw [hnone] at hsome
    cases hsome
  · intro hno
    refine Option.eq_none_iff_forall_ne_some.2 fun v hv => hno ⟨v.toNat, parseAddress_eq_some_iff.1 hv, ?_⟩
    exact Nat.le_of_lt_succ v.toNat_lt

/-! ### Shown words -/

namespace Hex

theorem isDigit_digit (n : Nat) : IsDigit 16 (digit n) (n % 16) := by
  have hrow : ∀ d < 16, upperRow[d]? = some (Char.ofNat (if d < 10 then 48 + d else 55 + d)) := by decide
  exact ⟨Nat.mod_lt n (by decide), .inr (hrow _ (Nat.mod_lt n (by decide)))⟩

theorem exists_digits (width n : Nat) :
    ∃ ds, List.Forall₂ (IsDigit 16) (digits width n) ds ∧ ds.length = width ∧
      Nat.ofDigits 16 ds.reverse = n % 16 ^ width := by
  induction width generalizing n with
  | zero => exact ⟨[], .nil, rfl, (Nat.mod_one n).symm⟩
  | succ width ih =>
    obtain ⟨ds, hds, hlength, hvalue⟩ := ih (n / 16)
    refine ⟨ds ++ [n % 16], List.rel_append hds (.cons (isDigit_digit n) .nil), ?_, ?_⟩
    · rw [List.length_append, hlength, List.length_singleton]
    · rw [List.reverse_concat, Nat.ofDigits_cons, hvalue, pow_succ', Nat.mod_mul]

theorem spells_digits {width n : Nat} (hwidth : 0 < width) (hn : n < 16 ^ width) : Spells 16 (digits width n) n := by
  obtain ⟨ds, hds, hlength, hvalue⟩ := exists_digits width n
  exact ⟨ds, hds, List.ne_nil_of_length_pos (hlength ▸ hwidth), hvalue.trans (Nat.mod_eq_of_lt hn)⟩

end Hex

theorem toList_display (v : UInt16) : (Value.word v).display.toList = ['$'] ++ Hex.digits 4 v.toNat := by
  rw [Value.display, Hex.word, Hex.fixed, String.toList_append, String.toList_ofList, String.toList_ofList]

/-- A text is read as a word exactly when it is the address of that word. It is refused exactly when it is no address of
any word. The text that shows a word is read as that word. -/
theorem addresses_exact :
    (∀ (text : String) (v : UInt16), parseAddress text = some v ↔ IsAddress text.toList v.toNat) ∧
      (∀ text : String, parseAddress text = none ↔ ¬∃ n, IsAddress text.toList n ∧ n ≤ 65535) ∧
      ∀ v : UInt16, parseAddress (Value.word v).display = some v := by
  refine ⟨fun text v => parseAddress_eq_some_iff, fun text => parseAddress_eq_none_iff, fun v => ?_⟩
  rw [parseAddress_eq_some_iff, toList_display]
  have hspells : Spells 16 (Hex.digits 4 v.toNat) v.toNat := Hex.spells_digits (by decide) v.toNat_lt
  exact .hex (by decide) (.plain hspells)

end Vic20
