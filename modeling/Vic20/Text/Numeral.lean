/-! Unsigned numerals: an optional plus sign and one or more digits, of bounded value. An address is
a numeral in base sixteen behind `0x`, `0X` or `$`, or in base ten without a mark. -/

namespace Vic20.Numeral

/-- The value of a digit of either case, if it is one of the base. -/
def digit? (base : Nat) (c : Char) : Option Nat :=
  let value :=
    if '0' ≤ c ∧ c ≤ '9' then c.toNat - '0'.toNat
    else if 'a' ≤ c ∧ c ≤ 'z' then c.toNat - 'a'.toNat + 10
    else if 'A' ≤ c ∧ c ≤ 'Z' then c.toNat - 'A'.toNat + 10
    else base
  if value < base then some value else none

/-- The number read so far with one more digit behind it, as long as it stays below `limit`. -/
def extend? (base limit n : Nat) (c : Char) : Option Nat := do
  let d ← digit? base c
  if n * base + d < limit then some (n * base + d) else none

/-- At most one leading plus sign is dropped. -/
def unsigned : List Char → List Char
  | '+' :: cs => cs
  | cs => cs

/-- A numeral whose value stays below `limit`, refused at the digit that takes it there. -/
def parse? (base limit : Nat) (text : List Char) : Option Nat :=
  match unsigned text with
  | [] => none
  | c :: cs => (c :: cs).foldlM (extend? base limit) 0

end Vic20.Numeral

namespace Vic20

/-- The digits of an address and their base, told by the mark in front. -/
def addressDigits : List Char → Nat × List Char
  | '0' :: 'x' :: cs => (16, cs)
  | '0' :: 'X' :: cs => (16, cs)
  | '$' :: cs => (16, cs)
  | cs => (10, cs)

/-- Reads an address such as `0x9400`, `$C6` or `4096`. -/
def parseAddress (text : String) : Option UInt16 :=
  let (base, digits) := addressDigits text.toList
  (Numeral.parse? base 0x10000 digits).map UInt16.ofNat

end Vic20
