/-! Storage that a drive serves files from: a directory to list and files to open by name. -/

namespace Vic20

namespace Storage

/-- An entry of the directory. The size of a directory is zero. -/
structure Entry where
  name : String
  isDirectory : Bool
  size : Nat
  deriving DecidableEq, Repr

/-- How a file is opened. Opening for writing makes the file or empties it. -/
inductive Access where
  | read | write
  deriving DecidableEq, Repr

/-- Operations that can fail. -/
inductive Operation where
  | entries | open | read | write | flush | seek
  deriving DecidableEq, Repr

def Operation.name : Operation → String
  | .entries => "entries"
  | .open => "open"
  | .read => "read"
  | .write => "write"
  | .flush => "flush"
  | .seek => "seek"

/-- Causes of a failure. The first two are storage in memory's own; `injected` is a failure that was
asked for; the others are the host's. -/
inductive Fault where
  | entityNotFound
  | endOfFile
  | injected (operation : Operation)
  | noSuchFile
  | notDirectory
  | isDirectory
  | nameTooLong
  | nulInName
  deriving DecidableEq, Repr

def Fault.message : Fault → String
  | entityNotFound => "entity not found"
  | endOfFile => "failed to fill whole buffer"
  | injected operation => "injected " ++ operation.name
  | noSuchFile => "No such file or directory (os error 2)"
  | notDirectory => "Not a directory (os error 20)"
  | isDirectory => "Is a directory (os error 21)"
  | nameTooLong => "File name too long (os error 36)"
  | nulInName => "file name contained an unexpected NUL byte"

/-- An open file, and the position in it. -/
structure Handle where
  file : Nat
  position : Nat := 0
  deriving DecidableEq, Repr

end Storage

open Storage

/-- Storage as a state. A failed operation leaves the handle as it was. -/
class Storage (σ : Type) where
  /-- The path of the directory. -/
  directory : σ → String
  entries : σ → Except Fault (List Entry) × σ
  openFile : σ → String → Access → Except Fault Handle × σ
  /-- The size of an open file, found by seeking. -/
  size : σ → Handle → Except Fault Nat × σ
  /-- The byte at the handle's position, and the handle after it. -/
  read : σ → Handle → Except Fault (UInt8 × Handle) × σ
  /-- Writes one or more bytes. -/
  write : σ → Handle → List UInt8 → Except Fault Handle × σ
  flush : σ → Handle → Except Fault Unit × σ

end Vic20
