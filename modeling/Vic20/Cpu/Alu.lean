import Vic20.Cpu.Registers

/-! Arithmetic on the registers. In decimal mode each nibble is a digit, and the flags keep the odd
rules of the chip: after an addition zero comes from the binary sum, negative and overflow from the
sum before its high digit is adjusted; after a subtraction all flags come from the binary difference. -/

namespace Vic20.Cpu.Registers

def addBinary (r : Registers) (v : UInt8) : Registers :=
  let sum := r.a.toNat + v.toNat + r.carry.toNat
  let result := UInt8.ofNat sum
  ((r.setFlag Status.carry (sum > 0xFF)).setFlag Status.overflow
    ((r.a ^^^ result) &&& (v ^^^ result) &&& 0x80 != 0)).setA result

def addDecimal (r : Registers) (v : UInt8) : Registers :=
  let c := r.carry.toNat
  let low := r.a.toNat % 16 + v.toNat % 16 + c
  let low := if low > 9 then low + 6 else low
  let high := r.a.toNat / 16 + v.toNat / 16 + (if low > 15 then 1 else 0)
  let binary := UInt8.ofNat (r.a.toNat + v.toNat + c)
  let half := UInt8.ofNat (high % 16 * 16)
  let adjusted := if high > 9 then high + 6 else high
  let flags := (((r.p.assign Status.zero (binary == 0)).assign Status.negative (half &&& 0x80 != 0)).assign
    Status.overflow ((r.a ^^^ half) &&& ~~~(r.a ^^^ v) &&& 0x80 != 0)).assign Status.carry (adjusted > 15)
  { r with a := UInt8.ofNat (adjusted % 16 * 16 + low % 16), p := flags }

/-- Adds with carry. -/
def add (r : Registers) (v : UInt8) : Registers :=
  if r.flag Status.decimal then r.addDecimal v else r.addBinary v

/-- The binary difference less the borrow, which is the carry's complement. -/
def difference (r : Registers) (v : UInt8) : Int :=
  (r.a.toNat : Int) - v.toNat - (1 - r.carry.toNat : Int)

/-- The flags that both kinds of subtraction leave. -/
def subtractFlags (r : Registers) (v : UInt8) : Status :=
  let diff := r.difference v
  let result := UInt8.ofInt diff
  ((r.p.assign Status.carry (0 ≤ diff)).assign Status.overflow
    ((r.a ^^^ v) &&& (r.a ^^^ result) &&& 0x80 != 0)).ofResult result

def subtractBinary (r : Registers) (v : UInt8) : Registers :=
  { r with a := UInt8.ofInt (r.difference v), p := r.subtractFlags v }

def subtractDecimal (r : Registers) (v : UInt8) : Registers :=
  let low : Int := (r.a.toNat % 16 : Nat) - (v.toNat % 16 : Nat) - (1 - r.carry.toNat : Int)
  let low := if low < 0 then (low - 6) % 16 - 16 else low
  let sum : Int := (r.a.toNat / 16 * 16 : Nat) - (v.toNat / 16 * 16 : Nat) + low
  let sum := if sum < 0 then sum - 0x60 else sum
  { r with a := UInt8.ofInt sum, p := r.subtractFlags v }

/-- Subtracts with borrow. -/
def subtract (r : Registers) (v : UInt8) : Registers :=
  if r.flag Status.decimal then r.subtractDecimal v else r.subtractBinary v

def compare (r : Registers) (register v : UInt8) : Registers :=
  (r.setFlag Status.carry (register ≥ v)).result (register - v)

/-- The shifts give the shifted value and the registers with the bit shifted out as carry. -/
def shiftLeft (r : Registers) (v : UInt8) : UInt8 × Registers :=
  (v <<< 1, (r.setFlag Status.carry (v &&& 0x80 != 0)).result (v <<< 1))

def shiftRight (r : Registers) (v : UInt8) : UInt8 × Registers :=
  (v >>> 1, (r.setFlag Status.carry (v &&& 0x01 != 0)).result (v >>> 1))

def rotateLeft (r : Registers) (v : UInt8) : UInt8 × Registers :=
  let w := v <<< 1 ||| r.carry
  (w, (r.setFlag Status.carry (v &&& 0x80 != 0)).result w)

def rotateRight (r : Registers) (v : UInt8) : UInt8 × Registers :=
  let w := v >>> 1 ||| r.carry <<< 7
  (w, (r.setFlag Status.carry (v &&& 0x01 != 0)).result w)

/-- Zero from the common bits, negative and overflow from bits seven and six of the operand. -/
def bitTest (r : Registers) (v : UInt8) : Registers :=
  ((r.setFlag Status.zero (r.a &&& v == 0)).setFlag Status.negative (v &&& 0x80 != 0)).setFlag
    Status.overflow (v &&& 0x40 != 0)

/-- And, then rotate right; carry is bit six of the result, overflow bits six and five compared. -/
def andRotate (r : Registers) (v : UInt8) : Registers :=
  let w := (r.a &&& v) >>> 1 ||| r.carry <<< 7
  ((r.setA w).setFlag Status.carry (w &&& 0x40 != 0)).setFlag Status.overflow
    ((w >>> 6 ^^^ w >>> 5) &&& 0x01 != 0)

/-- X becomes A and X less the operand, with the carry of a comparison. -/
def subtractFromAX (r : Registers) (v : UInt8) : Registers :=
  let ax := r.a &&& r.x
  (r.setFlag Status.carry (ax ≥ v)).setX (ax - v)

end Vic20.Cpu.Registers
