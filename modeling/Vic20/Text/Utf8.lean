/-! Bytes read as UTF-8 text. Each longest beginning of a character that does not go on as one is
replaced by a single replacement character. -/

namespace Vic20.Utf8

def replacement : Char := '\uFFFD'

/-- What a lead byte announces: the number of bytes that follow, the range of the first of them, and
the bits of the character that the lead byte holds. -/
structure Lead where
  following : Nat
  low : UInt8
  high : UInt8
  bits : Nat
  deriving DecidableEq, Repr

/-- The ranges leave out overlong forms, surrogates and what is beyond the last character. -/
def lead? (b : UInt8) : Option Lead :=
  let n := b.toNat
  if n < 0x80 then some ⟨0, 0x80, 0xBF, n⟩
  else if n < 0xC2 then none
  else if n < 0xE0 then some ⟨1, 0x80, 0xBF, n - 0xC0⟩
  else if n = 0xE0 then some ⟨2, 0xA0, 0xBF, 0⟩
  else if n = 0xED then some ⟨2, 0x80, 0x9F, 0xD⟩
  else if n < 0xF0 then some ⟨2, 0x80, 0xBF, n - 0xE0⟩
  else if n = 0xF0 then some ⟨3, 0x90, 0xBF, 0⟩
  else if n < 0xF4 then some ⟨3, 0x80, 0xBF, n - 0xF0⟩
  else if n = 0xF4 then some ⟨3, 0x80, 0x8F, 4⟩
  else none

/-- Takes following bytes, of which the first is in a range of its own. Gives the character's number,
if all of them are there, and the bytes after those taken. -/
def follow : (following : Nat) → (low high : UInt8) → (bits : Nat) → List UInt8 → Option Nat × List UInt8
  | 0, _, _, bits, rest => (some bits, rest)
  | _ + 1, _, _, _, [] => (none, [])
  | n + 1, low, high, bits, c :: rest =>
    if low ≤ c ∧ c ≤ high then follow n 0x80 0xBF (bits * 64 + c.toNat % 64) rest
    else (none, c :: rest)

theorem length_follow_le (n : Nat) (low high : UInt8) (bits : Nat) (rest : List UInt8) :
    (follow n low high bits rest).2.length ≤ rest.length := by
  induction rest generalizing n low high bits with
  | nil => cases n <;> simp [follow]
  | cons c rest ih =>
    cases n with
    | zero => simp [follow]
    | succ n =>
      simp only [follow]
      split
      · exact Nat.le_succ_of_le (ih ..)
      · simp

def decode : List UInt8 → List Char
  | [] => []
  | b :: rest =>
    match lead? b with
    | none => replacement :: decode rest
    | some l =>
      let r := follow l.following l.low l.high l.bits rest
      (r.1.map Char.ofNat).getD replacement :: decode r.2
termination_by bytes => bytes.length
decreasing_by
  · simp
  · have := length_follow_le l.following l.low l.high l.bits rest
    simp only [List.length_cons]
    omega

def text (bytes : List UInt8) : String := String.ofList (decode bytes)

/-- The bytes of a text. -/
def bytes (text : String) : List UInt8 := text.toUTF8.toList

end Vic20.Utf8
