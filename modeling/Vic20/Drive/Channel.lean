import Vic20.Journal
import Vic20.Storage.Basic
import Vic20.Text.Hex

/-! Channels, and what a drive tells about its work on them. -/

namespace Vic20.Drive

open Storage

def channelCount : Nat := 16

/-- The longest name or burst held before the drive acts on it. -/
def bufferSize : Nat := 256

/-- The address that takes back LISTEN or TALK. -/
def unaddress : UInt8 := 31

/-- The device number of the first drive. -/
def defaultDevice : UInt8 := 8

/-- Whether the drive is addressed, and for what. OPEN and CLOSE are carried out at UNLISTEN. -/
inductive Arbitration where
  | idle | listening | opening | closing | talking
  deriving DecidableEq, Repr

def Arbitration.name : Arbitration → String
  | idle => "idle"
  | listening => "listening"
  | opening => "open"
  | closing => "close"
  | talking => "talking"

/-- What a channel is doing. A directory or file being read knows what is left to send. -/
inductive Channel where
  | closed
  | directory (rest : List UInt8)
  | read (file : Handle) (remaining : Nat)
  | write (file : Handle)
  deriving DecidableEq, Repr

def Channel.kind : Channel → String
  | closed => "closed"
  | directory _ => "directory"
  | read .. => "read"
  | write _ => "write"

/-- A failure of storage. The computer is not told; the drive notes it and has nothing to send. -/
inductive StorageError where
  | detached
  | opening (name : String) (cause : Fault)
  | listing (cause : Fault)
  | reading (cause : Fault)
  | writing (cause : Fault)
  deriving DecidableEq, Repr

def StorageError.message : StorageError → String
  | detached => "no storage attached"
  | opening name cause => "cannot open \"" ++ name ++ "\": " ++ cause.message
  | listing cause => "cannot list directory: " ++ cause.message
  | reading cause => "read failed: " ++ cause.message
  | writing cause => "write failed: " ++ cause.message

inductive Event where
  /-- A byte arrived under attention. -/
  | command (v : UInt8)
  | addressed (before after : Arbitration)
  | opened (channel : UInt8) (name : String)
  | closed (channel : UInt8) (kind : String)
  | failed (error : StorageError)
  deriving DecidableEq, Repr

def Event.message : Event → Message
  | command v => ⟨.trace, "iec: " ++ Hex.byte v ++ " under ATN"⟩
  | addressed before after => ⟨.trace, "iec: " ++ before.name ++ " -> " ++ after.name⟩
  | opened channel name => ⟨.debug, "iec: OPEN " ++ toString channel.toNat ++ " \"" ++ name ++ "\""⟩
  | closed channel kind => ⟨.debug, "iec: CLOSE " ++ toString channel.toNat ++ " (" ++ kind ++ ")"⟩
  | failed error => ⟨.warn, "iec: " ++ error.message⟩

end Vic20.Drive
