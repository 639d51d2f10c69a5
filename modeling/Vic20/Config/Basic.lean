import Vic20.Drive.Channel
import Vic20.Memory.Expansion

/-! What a machine is built from besides its ROMs. -/

namespace Vic20

/-- `realTime` asks the host to run frames no faster than the machine would. -/
structure Config where
  expansion : Expansion := .unexpanded
  device : UInt8 := Drive.defaultDevice
  longDirectory : Bool := false
  realTime : Bool := false
  deriving DecidableEq, Repr

end Vic20
