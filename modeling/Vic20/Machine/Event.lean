import Vic20.Cpu.Basic
import Vic20.Drive.Channel
import Vic20.Journal
import Vic20.Memory.Expansion

/-! What a machine tells about its work. -/

namespace Vic20

def Unsupported.message (u : Unsupported) : Message :=
  ⟨.warn, "unsupported opcode $" ++ Hex.byte u.opcode ++ " at $" ++ Hex.word u.address⟩

namespace Machine

inductive Event where
  | reset
  | expansion (preset : Expansion)
  | fitted (block size : Nat)
  | removed (block : Nat)
  | cartridge (address : UInt16) (size : Nat)
  | cartridgesRemoved
  | loaded (first stop programEnd : UInt16)
  | unsupported (opcode : Unsupported)
  | drive (event : Drive.Event)
  deriving DecidableEq, Repr

def Event.message : Event → Message
  | reset => ⟨.debug, "vic20: reset"⟩
  | expansion preset => ⟨.debug, "vic20: RAM expansion " ++ preset.name⟩
  | fitted block size =>
    ⟨.debug, "vic20: expansion block " ++ toString block ++ " fitted (" ++ toString size ++ " bytes)"⟩
  | removed block => ⟨.debug, "vic20: expansion block " ++ toString block ++ " removed"⟩
  | cartridge address size =>
    ⟨.debug, "vic20: cartridge at $" ++ Hex.word address ++ " (" ++ toString size ++ " bytes)"⟩
  | cartridgesRemoved => ⟨.debug, "vic20: cartridges removed"⟩
  | loaded first stop programEnd =>
    ⟨.debug, "vic20: PRG $" ++ Hex.word first ++ "-$" ++ Hex.word stop ++ ", BASIC end $" ++
      Hex.word programEnd⟩
  | unsupported opcode => opcode.message
  | drive event => event.message

end Machine
end Vic20
