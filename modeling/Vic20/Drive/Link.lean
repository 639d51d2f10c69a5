/-! The byte handshake on the clock and data lines: its states and its times. The receiving states
serve commands, names and data to be saved; the sending ones follow once the drive has been told to
talk. -/

namespace Vic20.Drive

inductive Link where
  | idle
  /-- Holds data to show that a device is there, until the talker lets go of the clock. -/
  | senderProbing
  | readyToReceive
  | waitDataValid
  | waitDataInvalid
  /-- Eight bits are in; waits for data to be let go. -/
  | dataAccepted
  | goToIdle
  /-- Waits for the computer to let go of the clock. -/
  | turnAround
  | turnAroundReady
  | waitReceiverReady
  | readyToSend
  | sendDataInvalid
  | sendDataValid
  | waitDataAccepted
  | waitEndOfEoiAck
  deriving DecidableEq, Repr

def Link.name : Link → String
  | idle => "idle"
  | senderProbing => "sender_probing"
  | readyToReceive => "ready_to_receive"
  | waitDataValid => "wait_data_valid"
  | waitDataInvalid => "wait_data_invalid"
  | dataAccepted => "data_accepted"
  | goToIdle => "go_to_idle"
  | turnAround => "turn_around"
  | turnAroundReady => "turn_around_ready"
  | waitReceiverReady => "wait_receiver_ready"
  | readyToSend => "ready_to_send"
  | sendDataInvalid => "send_data_invalid"
  | sendDataValid => "send_data_valid"
  | waitDataAccepted => "wait_data_accepted"
  | waitEndOfEoiAck => "wait_end_of_eoi_ack"

/-! Times in processor cycles, each about a microsecond. -/

/-- A listener holds data this long to answer the end signal. -/
def eoiAckHold : Nat := 60

/-- A talker silent for longer marks the next byte as the last. -/
def eoiTimeout : Nat := 256

/-- A byte that does not begin within this time is given up. -/
def receiveTimeout : Nat := 512

/-- So is a bit. -/
def bitTimeout : Nat := 1024

def idleSettle : Nat := 60

/-- The drive takes over the clock after this. -/
def turnAroundDelay : Nat := 100

/-- Half a bit sent, and the gap before a byte. -/
def bitTime : Nat := 60

/-- The gap that signals the last byte. -/
def eoiSignal : Nat := 200

/-- With nothing to send the drive gives up after this. -/
def emptyTimeout : Nat := 512

end Vic20.Drive
