import Vic20.Text.Hex

/-! Values shown when a component is inspected. Bytes and words are shown in hexadecimal behind a
dollar sign, so a shown word reads back as an address. -/

namespace Vic20

inductive Value where
  | bool (v : Bool)
  | byte (v : UInt8)
  | word (v : UInt16)
  | int (v : Int)
  | text (v : String)
  deriving DecidableEq, Repr

namespace Value

def display : Value → String
  | bool true => "true"
  | bool false => "false"
  | byte v => "$" ++ Hex.byte v
  | word v => "$" ++ Hex.word v
  | int v => toString v
  | text v => v

/-- A count that is shown in decimal. -/
def count (n : Nat) : Value := int n

end Value

/-- A component whose state is shown by dotted path. `paths` lists what to ask for. -/
class Inspect (α : Type) where
  query : α → String → Option Value
  paths : List String

end Vic20
