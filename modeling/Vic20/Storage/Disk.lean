import Vic20.Storage.Basic

/-! A disk in memory. Names are compared without regard to the case of ASCII letters. Its operations can
be made to fail. -/

namespace Vic20

/-- Two names that differ at most in the case of ASCII letters. -/
def sameName (a b : String) : Bool := a.toList.map Char.toLower == b.toList.map Char.toLower

structure Disk.File where
  name : String
  bytes : Array UInt8
  deriving DecidableEq, Repr

/-- An open file is known by its place among the files, and so it is the file of that place when the
disk is replaced. `listed` replaces the true entries in listings. Reading fails from `readLimit` on. -/
structure Disk where
  directory : String := "/media/disk"
  files : Array Disk.File := #[]
  listed : Option (List Storage.Entry) := none
  failing : List Storage.Operation := []
  readLimit : Option Nat := none

namespace Disk

open Storage

/-- The content of a file. Where there is no file, it is empty. -/
def content (d : Disk) (file : Nat) : Array UInt8 := (d.files[file]?.map File.bytes).getD #[]

def fails (d : Disk) (operation : Operation) : Bool := d.failing.contains operation

/-- The place of the first file of a name. -/
def find? (d : Disk) (name : String) : Option Nat := d.files.findIdx? (sameName ·.name name)

/-- Adds a file. -/
def add (d : Disk) (name : String) (bytes : Array UInt8) : Disk :=
  { d with files := d.files.push ⟨name, bytes⟩ }

/-- Changes the content of a file. -/
def change (d : Disk) (file : Nat) (f : Array UInt8 → Array UInt8) : Disk :=
  { d with files := d.files.modify file fun x => { x with bytes := f x.bytes } }

def entries (d : Disk) : Except Fault (List Entry) :=
  if d.fails .entries then .error (.injected .entries)
  else .ok (d.listed.getD (d.files.toList.map fun f => ⟨f.name, false, f.bytes.size⟩))

def openFile (d : Disk) (name : String) (access : Access) : Except Fault Handle × Disk :=
  if d.fails .open then (.error (.injected .open), d)
  else match access, d.find? name with
    | .read, some file => (.ok ⟨file, 0⟩, d)
    | .read, none => (.error .entityNotFound, d)
    | .write, some file => (.ok ⟨file, 0⟩, d.change file fun _ => #[])
    | .write, none => (.ok ⟨d.files.size, 0⟩, d.add name #[])

def read (d : Disk) (h : Handle) : Except Fault (UInt8 × Handle) :=
  if d.fails .read || d.readLimit.any (· ≤ h.position) then .error (.injected .read)
  else match (d.content h.file)[h.position]? with
    | some v => .ok (v, { h with position := h.position + 1 })
    | none => .error .endOfFile

/-- Bytes go to the end of the file. -/
def write (d : Disk) (h : Handle) (bytes : List UInt8) : Except Fault Handle × Disk :=
  if d.fails .write then (.error (.injected .write), d)
  else (.ok h, d.change h.file (· ++ bytes))

instance : Storage Disk where
  directory d := d.directory
  entries d := (d.entries, d)
  openFile := openFile
  size d h := (if d.fails .seek then .error (.injected .seek) else .ok (d.content h.file).size, d)
  read d h := (d.read h, d)
  write := write
  flush d _ := (if d.fails .flush then .error (.injected .flush) else .ok (), d)

end Disk
end Vic20
