import Vic20.Word

/-! BASIC programs as memory holds them: a chain of lines, each a link to the next, a line number, the
text and a zero byte. A link of zero ends the program. Text is kept as given. -/

namespace Vic20

structure Program.Line where
  number : UInt16
  text : List UInt8
  deriving DecidableEq, Repr

/-- A program and the address of its first line. -/
structure Program where
  start : UInt16
  lines : List Program.Line := []
  deriving DecidableEq, Repr

namespace Program

def addLine (p : Program) (number : UInt16) (text : List UInt8) : Program :=
  { p with lines := p.lines ++ [⟨number, text⟩] }

/-- The address after a line, where the next begins. -/
def Line.next (l : Line) (address : UInt16) : UInt16 := address + UInt16.ofNat (l.text.length + 5)

/-- The chain of lines from an address on. -/
def chain (address : UInt16) : List Line → List UInt8
  | [] => [0, 0]
  | l :: ls => wordBytes (l.next address) ++ wordBytes l.number ++ l.text ++ 0 :: chain (l.next address) ls

/-- The program as a loadable file. -/
def image (p : Program) : List UInt8 := wordBytes p.start ++ chain p.start p.lines

end Program
end Vic20
