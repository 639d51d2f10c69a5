/-! Words as pairs of bytes, low byte first in memory. -/

namespace Vic20

def word (low high : UInt8) : UInt16 := low.toUInt16 ||| high.toUInt16 <<< 8

def lowByte (w : UInt16) : UInt8 := w.toUInt8

def highByte (w : UInt16) : UInt8 := (w >>> 8).toUInt8

def wordBytes (w : UInt16) : List UInt8 := [lowByte w, highByte w]

/-- Two addresses whose high bytes differ. -/
def pageCrossed (a b : UInt16) : Bool := a &&& 0xFF00 != b &&& 0xFF00

end Vic20
