/-! Blocks of memory of a fixed size. Offsets are below the size, so that every access is in range. -/

namespace Vic20

abbrev Block (size : Nat) := Vector UInt8 size

namespace Block

variable {size : Nat}

def filled (size : Nat) (v : UInt8) : Block size := Vector.replicate size v

def zero (size : Nat) : Block size := filled size 0

def read (b : Block size) (i : Fin size) : UInt8 := b.get i

def write (b : Block size) (i : Fin size) (v : UInt8) : Block size := b.set i.val v i.isLt

/-- Reads as if the block were repeated without end. -/
def readWrapped (b : Block size) (i : Nat) (pos : 0 < size := by decide) : UInt8 :=
  b.read ⟨i % size, Nat.mod_lt i pos⟩

end Block
end Vic20
