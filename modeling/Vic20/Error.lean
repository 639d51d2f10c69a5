/-! The ways in which the machine refuses what it is given. -/

namespace Vic20

inductive Error where
  | romSize (name : String) (expected actual : Nat)
  | invalidBlock (block : Nat)
  | cartridgeTooShort (size : Nat)
  | prgTooShort (size : Nat)
  | bootTimeout (frames : Nat)
  | config
  deriving DecidableEq, Repr

/-- A configuration error has no text of its own. -/
def Error.message : Error → String
  | romSize name expected actual =>
    name ++ " ROM must be " ++ toString expected ++ " bytes, got " ++ toString actual
  | invalidBlock block => "no RAM expansion block " ++ toString block
  | cartridgeTooShort size => "cartridge image too short: " ++ toString size ++ " bytes"
  | prgTooShort size => "PRG too short: " ++ toString size ++ " bytes"
  | bootTimeout frames => "KERNAL did not reach READY within " ++ toString frames ++ " frames"
  | config => ""

end Vic20
