import Vic20.Program.Lines
import Vic20.Storage.Basic
import Vic20.Text.Utf8

/-! A directory as a loadable program. Line numbers carry sizes in blocks and line texts the quoted
names, so that listing the program shows the directory. -/

namespace Vic20.Listing

open Storage

/-- Where listings load. -/
def address : UInt16 := 0x0401

/-- The control code that begins the header in reverse video. -/
def reverseOn : UInt8 := 0x12

def space : UInt8 := 0x20
def quote : UInt8 := 0x22

/-- Lower-case ASCII letters become upper-case. -/
def upper (v : UInt8) : UInt8 := if 0x61 ≤ v ∧ v ≤ 0x7A then v - 0x20 else v

/-- Bytes filled up with spaces to a width. -/
def padTo (width : Nat) (bytes : List UInt8) : List UInt8 :=
  bytes ++ List.replicate (width - bytes.length) space

/-- The text after the last separator. -/
def lastPart (path : List Char) : List Char := (path.reverse.takeWhile (· ≠ '/')).reverse

/-- The name in quotes at a fixed width, in the long form with the disk's format. -/
def header (directory : String) (long : Bool) : List UInt8 :=
  let name := (Utf8.bytes (String.ofList (lastPart directory.toList))).take 16
  let line := reverseOn :: quote :: padTo 16 name ++ [quote]
  ((if long then padTo 23 line ++ Utf8.bytes "2A" else line)).map upper

/-- A file's blocks of 256 bytes. No file has none. -/
def blocks (size : Nat) : Nat := min (max (size / 256) 1) 0xFFFF

/-- A name up to its first dot, and what follows the dot. -/
def splitName (name : List Char) : List Char × Option (List Char) :=
  match name.dropWhile (· ≠ '.') with
  | [] => (name, none)
  | _ :: extension => (name.takeWhile (· ≠ '.'), some extension)

/-- The spaces before a name, which make up for the width of the block count. -/
def lead (count : Nat) : Nat := if count < 10 then 3 else if count < 100 then 2 else 1

def nameWidth (long : Bool) : Nat := if long then 16 else 10
def extensionColumn (long : Bool) : Nat := if long then 19 else 13

/-- A line of the listing. Directories whose name begins with a dot have none. -/
def entry (e : Entry) (long : Bool) : Option Program.Line :=
  let name := e.name.toList
  if e.isDirectory && name.head? == some '.' then none
  else
    let count := if e.isDirectory then 0 else blocks e.size
    let (stem, extension) := if e.isDirectory then (name, some "DIR".toList) else splitName name
    let bytes (cs : List Char) := Utf8.bytes (String.ofList cs)
    let start := List.replicate (lead count) space ++ quote :: (bytes stem).take (nameWidth long) ++ [quote]
    let line := match extension with
      | some cs => padTo (extensionColumn long + lead count) start ++ bytes cs
      | none => start
    some ⟨UInt16.ofNat count, line.map upper⟩

def program (directory : String) (entries : List Entry) (long : Bool) : Program where
  start := address
  lines := ⟨0, header directory long⟩ :: entries.filterMap (entry · long)

/-- The listing as a file. -/
def build (directory : String) (entries : List Entry) (long : Bool) : List UInt8 :=
  (program directory entries long).image

end Vic20.Listing
