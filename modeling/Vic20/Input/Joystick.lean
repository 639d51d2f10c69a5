/-! The joystick. All switches but one are on the first adapter's port A. -/

namespace Vic20

inductive Switch where
  | up | down | left | right | fire
  deriving DecidableEq, Repr

namespace Switch

def all : List Switch := [up, down, left, right, fire]

def name : Switch → String
  | up => "Up"
  | down => "Down"
  | left => "Left"
  | right => "Right"
  | fire => "Fire"

def named? (name : String) : Option Switch := all.find? (·.name == name)

/-- The bit of the first adapter's port A. -/
def portBit : Switch → Option UInt8
  | up => some 2
  | down => some 3
  | left => some 4
  | fire => some 5
  | right => none

end Switch

/-- Which switches are closed. -/
structure Joystick where
  up : Bool := false
  down : Bool := false
  left : Bool := false
  right : Bool := false
  fire : Bool := false
  deriving DecidableEq, Repr

namespace Joystick

def get (j : Joystick) : Switch → Bool
  | .up => j.up
  | .down => j.down
  | .left => j.left
  | .right => j.right
  | .fire => j.fire

def set (j : Joystick) (s : Switch) (closed : Bool) : Joystick :=
  match s with
  | .up => { j with up := closed }
  | .down => { j with down := closed }
  | .left => { j with left := closed }
  | .right => { j with right := closed }
  | .fire => { j with fire := closed }

end Joystick
end Vic20
