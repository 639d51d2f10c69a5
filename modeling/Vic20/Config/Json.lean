import Vic20.Config.Basic
import Vic20.Error
import Vic20.Text.JsonValue
import Vic20.Text.Numeral

/-! Configurations as JSON: an object with a member for each field, or an array of the fields in order.
Fields that are left out take their defaults. Members that are no fields are ignored, and a field given
twice is refused. -/

namespace Vic20

/-- A preset by its key, as a string or as the only member of an object, with the value null. -/
def Expansion.ofJson? : JsonValue → Option Expansion
  | .string key => JsonValue.text? key >>= ofKey?
  | .object [(key, .null)] => JsonValue.text? key >>= ofKey?
  | _ => none

namespace JsonValue

/-- A whole number below 256, written in digits only. -/
def byte? : JsonValue → Option UInt8
  | .number (c :: digits) =>
    if isDigit c then (Numeral.parse? 10 0x100 (c :: digits)).map UInt8.ofNat else none
  | _ => none

def bool? : JsonValue → Option Bool
  | .bool b => some b
  | _ => none

end JsonValue

namespace Config

inductive Field where
  | expansion | device | longDirectory | realTime
  deriving DecidableEq, Repr

namespace Field

/-- The fields in order. -/
def all : List Field := [expansion, device, longDirectory, realTime]

def key : Field → String
  | expansion => "ram_expansion"
  | device => "drive_device"
  | longDirectory => "long_directory"
  | realTime => "real_time"

def ofKey? (key : String) : Option Field := all.find? (·.key == key)

end Field

def set? (c : Config) (field : Field) (v : JsonValue) : Option Config :=
  match field with
  | .expansion => (Expansion.ofJson? v).map ({ c with expansion := · })
  | .device => v.byte?.map ({ c with device := · })
  | .longDirectory => v.bool?.map ({ c with longDirectory := · })
  | .realTime => v.bool?.map ({ c with realTime := · })

/-- Takes the members of an object. `given` are the fields before them. -/
def setMembers? (c : Config) (given : List Field) : List (List Nat × JsonValue) → Option Config
  | [] => some c
  | (key, v) :: members => do
    let key ← JsonValue.text? key
    match Field.ofKey? key with
    | none => c.setMembers? given members
    | some field =>
      if given.contains field then none
      else
        let c ← c.set? field v
        c.setMembers? (field :: given) members

/-- Takes values for fields in order. -/
def setValues? (c : Config) : List Field → List JsonValue → Option Config
  | _, [] => some c
  | [], _ :: _ => none
  | field :: fields, v :: vs => do
    let c ← c.set? field v
    c.setValues? fields vs

def ofJson? : JsonValue → Option Config
  | .object members => setMembers? {} [] members
  | .array values => setValues? {} Field.all values
  | _ => none

def parse (text : String) : Except Error Config :=
  match JsonValue.parse? text >>= ofJson? with
  | some c => .ok c
  | none => .error .config

/-- A field's value as written. -/
def fieldText (c : Config) : Field → String
  | .expansion => "\"" ++ c.expansion.key ++ "\""
  | .device => toString c.device.toNat
  | .longDirectory => if c.longDirectory then "true" else "false"
  | .realTime => if c.realTime then "true" else "false"

/-- The configuration as an object, one field to a line, indented by two spaces. -/
def render (c : Config) : String :=
  let lines := Field.all.map fun f => "  \"" ++ f.key ++ "\": " ++ c.fieldText f
  "\x7b\n" ++ ",\n".intercalate lines ++ "\n\x7d"

end Config
end Vic20
