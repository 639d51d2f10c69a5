import Mathlib.Data.Nat.Digits.Defs
import Mathlib.Tactic.LinearCombination
import Mathlib.Tactic.SplitIfs
import Vic20.Cpu.Execute
import Vic20.Proofs.Cpu.Flags

/-! Numbers of many bytes, added and subtracted a byte at a time with the low byte first. Each byte is a digit, of
256 values or in decimal mode of 100, and the carry that a column leaves is the one that the next column expects.
A subtraction that passes nothing on leaves the carry set. -/

namespace Vic20.Cpu

/-- How many values a digit has. -/
def base (decimal : Bool) : ℕ := if decimal then 100 else 256

/-- A byte as a digit. In decimal mode it is made of two decimal digits, one a nibble. -/
def digit (decimal : Bool) (v : UInt8) : ℕ :=
  if decimal then v.toNat / 16 * 10 + v.toNat % 16 else v.toNat

def IsDigit (decimal : Bool) (v : UInt8) : Prop := decimal = true → v.toNat / 16 ≤ 9 ∧ v.toNat % 16 ≤ 9

/-- The number that bytes stand for, the low byte first. -/
def number (decimal : Bool) (vs : List UInt8) : ℕ := Nat.ofDigits (base decimal) (vs.map (digit decimal))

/-- Runs an operation on columns of two bytes: the upper byte is loaded into the accumulator and the operation takes
the lower one. Gives what the accumulator holds after each column. -/
def chain (op : ReadOp) (r : Registers) : List (UInt8 × UInt8) → List UInt8 × Registers
  | [] => ([], r)
  | (x, y) :: columns =>
    let r := op.apply (ReadOp.lda.apply r x) y
    let (zs, last) := chain op r columns
    (r.a :: zs, last)

theorem number_cons (decimal : Bool) (v : UInt8) (vs : List UInt8) :
    number decimal (v :: vs) = digit decimal v + base decimal * number decimal vs := Nat.ofDigits_cons

theorem length_chain (op : ReadOp) (r : Registers) (columns : List (UInt8 × UInt8)) :
    (chain op r columns).1.length = columns.length := by
  induction columns generalizing r with
  | nil => rfl
  | cons column columns ih => exact congrArg (· + 1) (ih _)

theorem toNat_ofInt (i : ℤ) : (UInt8.ofInt i).toNat = (i % 256).toNat := by
  have hmod := Int.emod_lt_of_pos i (show (0 : ℤ) < 256 by decide)
  rw [UInt8.ofInt, UInt8.toNat_ofNat']
  omega

namespace Registers

variable {r : Registers} {v : UInt8}

theorem carry_le (r : Registers) : r.carry.toNat ≤ 1 := by
  unfold carry
  split_ifs <;> decide

theorem toNat_carry {on : Prop} [Decidable on] (h : r.flag Status.carry = decide on) :
    r.carry.toNat = if on then 1 else 0 := by
  unfold carry
  rw [h]
  by_cases hon : on <;> simp [hon]

/-! ### Addition -/

theorem addBinary_carry :
    (r.addBinary v).carry.toNat = if r.a.toNat + v.toNat + r.carry.toNat > 0xFF then 1 else 0 := by
  apply toNat_carry
  change (((r.p.assign _ _).assign _ _).ofResult _).test Status.carry = _
  rw [Status.test_ofResult rfl rfl, Status.test_assign_of_disjoint rfl, Status.test_assign (by decide)]

theorem addBinary_exact (r : Registers) (v : UInt8) :
    r.a.toNat + v.toNat + r.carry.toNat = (r.addBinary v).a.toNat + 256 * (r.addBinary v).carry.toNat := by
  have hc := r.carry_le
  have ha := r.a.toNat_lt
  have hv := v.toNat_lt
  have hsum : (r.addBinary v).a.toNat = (r.a.toNat + v.toNat + r.carry.toNat) % 256 := UInt8.toNat_ofNat'
  rw [hsum, addBinary_carry]
  split_ifs <;> omega

/-- A decimal digit that has passed nine skips the six values above it, so that it is carried as sixteen. -/
def skipped (n : ℕ) : ℕ := if n > 9 then n + 6 else n

theorem addDecimal_exact (ha : IsDigit true r.a) (hv : IsDigit true v) :
    digit true r.a + digit true v + r.carry.toNat =
        digit true (r.addDecimal v).a + 100 * (r.addDecimal v).carry.toNat ∧
      IsDigit true (r.addDecimal v).a := by
  obtain ⟨ha, ha'⟩ := ha rfl
  obtain ⟨hv, hv'⟩ := hv rfl
  have hc := r.carry_le
  let low := skipped (r.a.toNat % 16 + v.toNat % 16 + r.carry.toNat)
  let high := skipped (r.a.toNat / 16 + v.toNat / 16 + if low > 15 then 1 else 0)
  have hsum : (r.addDecimal v).a.toNat = (high % 16 * 16 + low % 16) % 256 := UInt8.toNat_ofNat'
  have hcarry : (r.addDecimal v).carry.toNat = if high > 15 then 1 else 0 :=
    toNat_carry (Status.test_assign (by decide) _)
  simp only [digit, IsDigit, if_true, true_implies]
  rw [hsum, hcarry]
  simp only [low, high, skipped]
  split_ifs <;> omega

theorem flag_add : (r.add v).flag Status.decimal = r.flag Status.decimal := by
  unfold add
  split
  · change ((((r.p.assign _ _).assign _ _).assign _ _).assign _ _).test Status.decimal = _
    rw [Status.test_assign_of_disjoint rfl, Status.test_assign_of_disjoint rfl,
      Status.test_assign_of_disjoint rfl, Status.test_assign_of_disjoint rfl]
    rfl
  · change (((r.p.assign _ _).assign _ _).ofResult _).test Status.decimal = _
    rw [Status.test_ofResult rfl rfl, Status.test_assign_of_disjoint rfl, Status.test_assign_of_disjoint rfl]
    rfl

/-! ### Subtraction -/

theorem subtractFlags_carry : (r.subtractFlags v).test Status.carry = decide (0 ≤ r.difference v) := by
  change (((r.p.assign _ _).assign _ _).ofResult _).test Status.carry = _
  rw [Status.test_ofResult rfl rfl, Status.test_assign_of_disjoint rfl, Status.test_assign (by decide)]

theorem subtractBinary_exact (r : Registers) (v : UInt8) :
    (r.a.toNat : ℤ) - v.toNat - (1 - r.carry.toNat) =
      (r.subtractBinary v).a.toNat - 256 * (1 - (r.subtractBinary v).carry.toNat) := by
  have hc := r.carry_le
  have ha := r.a.toNat_lt
  have hv := v.toNat_lt
  have hcarry : (r.subtractBinary v).carry.toNat = if 0 ≤ r.difference v then 1 else 0 :=
    toNat_carry subtractFlags_carry
  have hdifference : (r.subtractBinary v).a.toNat = (r.difference v % 256).toNat := toNat_ofInt _
  rw [hcarry, hdifference]
  unfold difference
  split_ifs <;> omega

/-- The carry comes from the binary difference. For packed digits that has the sign of the decimal one. -/
theorem subtractDecimal_exact (ha : IsDigit true r.a) (hv : IsDigit true v) :
    (digit true r.a : ℤ) - digit true v - (1 - r.carry.toNat) =
        digit true (r.subtractDecimal v).a - 100 * (1 - (r.subtractDecimal v).carry.toNat) ∧
      IsDigit true (r.subtractDecimal v).a := by
  obtain ⟨ha, ha'⟩ := ha rfl
  obtain ⟨hv, hv'⟩ := hv rfl
  have hc := r.carry_le
  have hcarry : (r.subtractDecimal v).carry.toNat = if 0 ≤ r.difference v then 1 else 0 :=
    toNat_carry subtractFlags_carry
  have hdifference : (r.subtractDecimal v).a.toNat = _ := toNat_ofInt _
  simp only [digit, IsDigit, if_true, true_implies]
  rw [hcarry, hdifference]
  unfold difference
  split_ifs <;> omega

theorem flag_subtract : (r.subtract v).flag Status.decimal = r.flag Status.decimal := by
  have hflags : (r.subtractFlags v).test Status.decimal = r.p.test Status.decimal := by
    unfold subtractFlags
    dsimp only
    rw [Status.test_ofResult rfl rfl, Status.test_assign_of_disjoint rfl, Status.test_assign_of_disjoint rfl]
  unfold subtract
  split
  · exact hflags
  · exact hflags

end Registers

/-! ### Columns -/

/-- What an operation makes of a column. The lower digit counts with a sign, and the carry by how far it is from
the one that passes nothing on. -/
structure Column (op : ReadOp) (sign idle : ℤ) : Prop where
  exact {r : Registers} {v : UInt8} {decimal : Bool} (hmode : r.flag Status.decimal = decimal)
    (ha : IsDigit decimal r.a) (hv : IsDigit decimal v) :
    (digit decimal r.a : ℤ) + sign * digit decimal v + (r.carry.toNat - idle) =
        digit decimal (op.apply r v).a + base decimal * ((op.apply r v).carry.toNat - idle) ∧
      IsDigit decimal (op.apply r v).a
  mode (r : Registers) (v : UInt8) : (op.apply r v).flag Status.decimal = r.flag Status.decimal

theorem isDigit_binary (v : UInt8) : IsDigit false v := fun h => absurd h Bool.false_ne_true

theorem column_adc : Column .adc 1 0 where
  exact {r v decimal} hmode ha hv := by
    cases decimal with
    | false =>
      have hadd : ReadOp.adc.apply r v = r.addBinary v := if_neg (Bool.eq_false_iff.1 hmode)
      have hexact := r.addBinary_exact v
      rw [hadd]
      refine ⟨?_, isDigit_binary _⟩
      simp only [digit, base, Bool.false_eq_true, if_false]
      omega
    | true =>
      have hadd : ReadOp.adc.apply r v = r.addDecimal v := if_pos hmode
      obtain ⟨hexact, hdigit⟩ := Registers.addDecimal_exact ha hv
      rw [hadd]
      refine ⟨?_, hdigit⟩
      simp only [base, if_true]
      omega
  mode _ _ := Registers.flag_add

theorem column_sbc : Column .sbc (-1) 1 where
  exact {r v decimal} hmode ha hv := by
    cases decimal with
    | false =>
      have hsubtract : ReadOp.sbc.apply r v = r.subtractBinary v := if_neg (Bool.eq_false_iff.1 hmode)
      have hexact := r.subtractBinary_exact v
      rw [hsubtract]
      refine ⟨?_, isDigit_binary _⟩
      simp only [digit, base, Bool.false_eq_true, if_false]
      omega
    | true =>
      have hsubtract : ReadOp.sbc.apply r v = r.subtractDecimal v := if_pos hmode
      obtain ⟨hexact, hdigit⟩ := Registers.subtractDecimal_exact ha hv
      rw [hsubtract]
      refine ⟨?_, hdigit⟩
      simp only [base, if_true]
      omega
  mode _ _ := Registers.flag_subtract

variable {op : ReadOp} {sign idle : ℤ} {decimal : Bool} {r : Registers}

/-- A column whose upper digit is loaded first. -/
theorem Column.loaded (hop : Column op sign idle) (hmode : r.flag Status.decimal = decimal) {x y : UInt8}
    (hx : IsDigit decimal x) (hy : IsDigit decimal y) :
    let after := op.apply (ReadOp.lda.apply r x) y
    (digit decimal x : ℤ) + sign * digit decimal y + (r.carry.toNat - idle) =
        digit decimal after.a + base decimal * (after.carry.toNat - idle) ∧
      IsDigit decimal after.a ∧ after.flag Status.decimal = decimal := by
  intro after
  have hloaded : (r.setA x).flag Status.decimal = decimal := (Registers.flag_result _ x rfl rfl).trans hmode
  have hcarry : (r.setA x).carry = r.carry := Registers.carry_result { r with a := x } x
  obtain ⟨hexact, hdigit⟩ := hop.exact (r := r.setA x) hloaded hx hy
  rw [hcarry] at hexact
  exact ⟨hexact, hdigit, (hop.mode _ y).trans hloaded⟩

/-- The law of a column is that of any number of columns. -/
theorem Column.chain (hop : Column op sign idle) (hmode : r.flag Status.decimal = decimal)
    {columns : List (UInt8 × UInt8)} (h : ∀ c ∈ columns, IsDigit decimal c.1 ∧ IsDigit decimal c.2) :
    (number decimal (columns.map Prod.fst) : ℤ) + sign * number decimal (columns.map Prod.snd) +
          (r.carry.toNat - idle) =
        number decimal (chain op r columns).1 +
          base decimal ^ columns.length * ((chain op r columns).2.carry.toNat - idle) ∧
      ∀ z ∈ (chain op r columns).1, IsDigit decimal z := by
  induction columns generalizing r with
  | nil =>
    constructor
    · simp [number, Cpu.chain]
    · rintro z ⟨⟩
  | cons column columns ih =>
    obtain ⟨x, y⟩ := column
    obtain ⟨hx, hy⟩ := h (x, y) List.mem_cons_self
    obtain ⟨hexact, hdigit, hkept⟩ := hop.loaded hmode hx hy
    obtain ⟨hnumber, hdigits⟩ := ih hkept fun c hc => h c (List.mem_cons_of_mem _ hc)
    constructor
    · simp only [List.map_cons, Cpu.chain, number_cons, List.length_cons, pow_succ]
      push_cast
      linear_combination hexact + base decimal * hnumber
    · rintro z (_ | ⟨_, hz⟩)
      · exact hdigit
      · exact hdigits z hz

/-- Sums and differences are exact for numbers of any length and any carry to begin with. In decimal mode the bytes
are packed digits, and those of the result are so too. -/
theorem multibyte_exact (r : Registers) (columns : List (UInt8 × UInt8))
    (h : ∀ c ∈ columns, IsDigit (r.flag Status.decimal) c.1 ∧ IsDigit (r.flag Status.decimal) c.2) :
    let decimal := r.flag Status.decimal
    let upper : ℤ := number decimal (columns.map Prod.fst)
    let lower : ℤ := number decimal (columns.map Prod.snd)
    let carry : ℤ := r.carry.toNat
    let places : ℤ := base decimal ^ columns.length
    let (sum, afterSum) := chain .adc r columns
    let (difference, afterDifference) := chain .sbc r columns
    (upper + lower + carry = number decimal sum + afterSum.carry.toNat * places ∧
      sum.length = columns.length ∧ ∀ z ∈ sum, IsDigit decimal z) ∧
    (upper - lower - (1 - carry) = number decimal difference - (1 - afterDifference.carry.toNat) * places ∧
      difference.length = columns.length ∧ ∀ z ∈ difference, IsDigit decimal z) := by
  obtain ⟨hsum, hsums⟩ := column_adc.chain rfl h
  obtain ⟨hdifference, hdifferences⟩ := column_sbc.chain rfl h
  refine ⟨⟨?_, length_chain _ _ _, hsums⟩, ?_, length_chain _ _ _, hdifferences⟩
  · linear_combination hsum
  · linear_combination hdifference

/-- Registers in decimal mode with the carry set. -/
def decimalCarry : Registers := { p := ⟨Status.decimal ||| Status.carry⟩ }

/-- 1299 and 8700, which with the carry add up to a number of five digits. -/
def columns1299 : List (UInt8 × UInt8) := [(0x99, 0x00), (0x12, 0x87)]

theorem multibyte_exact_1299 :
    (∀ c ∈ columns1299, IsDigit true c.1 ∧ IsDigit true c.2) ∧
      (1299 : ℤ) + 8700 + 1 = number true (chain .adc decimalCarry columns1299).1 + 1 * 100 ^ 2 ∧
      (1299 : ℤ) - 8700 - (1 - 1) = number true (chain .sbc decimalCarry columns1299).1 - (1 - 0) * 100 ^ 2 := by
  have hdigits : ∀ c ∈ columns1299, IsDigit true c.1 ∧ IsDigit true c.2 := by
    rintro c (_ | ⟨_, _ | ⟨_, ⟨⟩⟩⟩)
    · exact ⟨fun _ => by decide, fun _ => by decide⟩
    · exact ⟨fun _ => by decide, fun _ => by decide⟩
  obtain ⟨⟨hsum, -⟩, hdifference, -⟩ := multibyte_exact decimalCarry columns1299 hdigits
  exact ⟨hdigits, hsum, hdifference⟩

end Vic20.Cpu
