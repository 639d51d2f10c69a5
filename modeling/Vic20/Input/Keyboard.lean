/-! The keyboard: eight rows of eight keys. Driving one side of the matrix low selects rows or columns; the
other side then shows the keys pressed there, low where one is pressed, until the next selection. -/

namespace Vic20

/-- A key by its place. -/
structure Key where
  row : Fin 8
  column : Fin 8
  deriving DecidableEq, Repr

namespace Key

/-- The names of the keys, by rows. -/
def layout : List (List String) := [
  ["N1", "LeftArrow", "Ctrl", "RunStop", "Space", "Commodore", "Q", "N2"],
  ["N3", "W", "A", "LShift", "Z", "S", "E", "N4"],
  ["N5", "R", "D", "X", "C", "F", "T", "N6"],
  ["N7", "Y", "G", "V", "B", "H", "U", "N8"],
  ["N9", "I", "J", "N", "M", "K", "O", "N0"],
  ["Plus", "P", "L", "Comma", "Period", "Colon", "At", "Minus"],
  ["Pound", "Asterisk", "Semicolon", "Slash", "RShift", "Equals", "UpArrow", "Home"],
  ["Delete", "Return", "CursorRight", "CursorDown", "F1", "F3", "F5", "F7"]]

def name (k : Key) : String := (layout.getD k.row.val []).getD k.column.val ""

def all : List Key := (List.finRange 8).flatMap fun row => (List.finRange 8).map fun column => ⟨row, column⟩

def named? (name : String) : Option Key := all.find? (·.name == name)

end Key

/-- `rows` has a byte for each row, with a bit set for each key pressed. `rowStatus` and `columnStatus`
are the results of the last selections. -/
structure Keyboard where
  rows : Vector UInt8 8 := Vector.replicate 8 0
  rowStatus : UInt8 := 0xFF
  columnStatus : UInt8 := 0xFF
  deriving DecidableEq, Repr

namespace Keyboard

/-- No key pressed and nothing selected. -/
def new : Keyboard := {}

def bit (n : Nat) : UInt8 := 1 <<< UInt8.ofNat n

/-- Presses or releases the key at a place. There is no key outside the matrix. -/
def set (k : Keyboard) (row column : Nat) (pressed : Bool) : Keyboard :=
  if h : row < 8 ∧ column < 8 then
    let old := k.rows[row]
    { k with rows := k.rows.set row (if pressed then old ||| bit column else old &&& ~~~(bit column)) h.1 }
  else k

def isPressed (k : Keyboard) (row column : Nat) : Bool :=
  if h : row < 8 ∧ column < 8 then k.rows[row] &&& bit column != 0 else false

/-- The columns with a key pressed in one of the rows of a mask. -/
def columnsOf (k : Keyboard) (mask : UInt8) : UInt8 :=
  (List.finRange 8).foldl (fun found (r : Fin 8) =>
    if mask &&& bit r != 0 then found ||| k.rows[r] else found) 0

/-- The rows with a key pressed in one of the columns of a mask. -/
def rowsOf (k : Keyboard) (mask : UInt8) : UInt8 :=
  (List.finRange 8).foldl (fun found (r : Fin 8) =>
    if k.rows[r] &&& mask != 0 then found ||| bit r else found) 0

/-- Port A drives the rows; a low bit selects. -/
def selectRows (k : Keyboard) (port : UInt8) : Keyboard :=
  { k with columnStatus := ~~~(k.columnsOf (~~~port)) }

/-- Port B drives the columns; a low bit selects. -/
def selectColumns (k : Keyboard) (port : UInt8) : Keyboard :=
  { k with rowStatus := ~~~(k.rowsOf (~~~port)) }

end Keyboard
end Vic20
