/-! Hexadecimal text with a fixed number of upper-case digits. -/

namespace Vic20.Hex

/-- The digit for the low four bits of `n`. -/
def digit (n : Nat) : Char :=
  let d := n % 16
  Char.ofNat (if d < 10 then 48 + d else 55 + d)

/-- The low `width` digits of `n`, most significant first. -/
def digits : (width : Nat) → Nat → List Char
  | 0, _ => []
  | width + 1, n => digits width (n / 16) ++ [digit n]

def fixed (width n : Nat) : String := String.ofList (digits width n)

def byte (v : UInt8) : String := fixed 2 v.toNat

def word (v : UInt16) : String := fixed 4 v.toNat

end Vic20.Hex
