import Vic20.Bus.Basic
import Vic20.Word

/-! The pointers to the end of a BASIC program. After a program has been put into memory they are moved
past it, so that variables do not overwrite it. -/

namespace Vic20.Program

/-- Where the start of the program text is kept. -/
def startPointer : UInt16 := 0x002B

/-- The starts of variables and arrays and the end of arrays. -/
def endPointers : List UInt16 := [0x002D, 0x002F, 0x0031]

/-- The screen editor's scroll pointer and the end of the last program loaded. -/
def scrollPointer : UInt16 := 0x00AC
def loadEndPointer : UInt16 := 0x00AE

variable {σ : Type} [Bus σ]

def peekWord (bus : σ) (address : UInt16) : UInt16 × σ :=
  let (low, bus) := Bus.read bus address
  let (high, bus) := Bus.read bus (address + 1)
  (word low high, bus)

def pokeWord (bus : σ) (address w : UInt16) : σ := Bus.writeAll bus address (wordBytes w)

/-- Moves the pointers `length` bytes past the start of the program. Gives the new end. -/
def setEnd (bus : σ) (length : Nat) : UInt16 × σ :=
  let (start, bus) := peekWord bus startPointer
  let stop := start + UInt16.ofNat length
  let bus := pokeWord bus scrollPointer 0
  let bus := endPointers.foldl (fun bus pointer => pokeWord bus pointer stop) bus
  (stop, pokeWord bus loadEndPointer stop)

end Vic20.Program
