import Vic20.Machine.Basic

/-! A machine's state by path. The parts are below their names, and memory below its addresses. -/

namespace Vic20.Machine

variable {σ : Type}

/-- The rest of a path that begins with the name of a part. -/
def below? (part path : String) : Option String :=
  if path.startsWith part then some (path.drop part.length).toString else none

/-- Asks a part. -/
def queryPart (m : Machine σ) (path : String) : Option (Option Value) :=
  let b := m.core.board
  (below? "cpu." path).map (Inspect.query m.core.cpu)
    <|> (below? "via1." path).map (Inspect.query b.via1)
    <|> (below? "via2." path).map (Inspect.query b.via2)
    <|> (below? "vic." path).map (Inspect.query b.vic)
    <|> (below? "drive." path).map (Inspect.query b.drive)
    <|> (below? "memory." path).map fun address => (parseAddress address).map fun a => .byte (m.peek a)

instance : Inspect (Machine σ) where
  query m path :=
    match m.queryPart path with
    | some v => v
    | none =>
      match path with
      | "cycle" => some (.count m.cycle.toNat)
      | "frame_count" => some (.count m.frames)
      | "nmi" => some (.bool m.core.nmiLine)
      | "typing" => some (.count m.typing.length)
      | _ => none
  paths := ["cpu.<6502_paths>", "via1.<via_paths>", "via2.<via_paths>", "vic.<vic_paths>",
    "drive.<iec_paths>", "memory.<address>", "cycle", "frame_count", "nmi", "typing"]

end Vic20.Machine
