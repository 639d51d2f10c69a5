import Vic20.Drive.Command

/-! The drive's side of the handshake. A tick looks at the lines once and changes the link state at most
once, however many cycles it stands for. -/

namespace Vic20.Drive

variable {σ : Type} [Storage σ]

/-- Every device answers attention by holding data. -/
def answerAttention (d : Drive σ) : Drive σ :=
  let d := if d.atn && !d.seenAtn then
      { d with dataOut := true, clkOut := false }.enter .senderProbing
    else d
  { d with seenAtn := d.atn }

/-- The bit on the data line: a line let go is a one. -/
def takeBit (d : Drive σ) : Drive σ :=
  { d with
    byte := d.byte ||| (if d.data then 0 else 1) <<< d.bit
    bit := d.bit + 1 }.enter .waitDataInvalid

/-- Puts the next bit on the data line. -/
def putBit (d : Drive σ) : Drive σ :=
  { d with
    clkOut := false
    dataOut := d.byte >>> d.bit &&& 1 == 0
    bit := d.bit + 1 }.enter .sendDataValid

/-- One step of the link. -/
def step (d : Drive σ) : Drive σ :=
  let t := d.elapsed
  match d.link with
  | .idle => if d.clk then { d with dataOut := true }.enter .senderProbing else d
  | .senderProbing =>
    if d.clk then d else { d with dataOut := false, last := false }.enter .readyToReceive
  | .readyToReceive =>
    if t > eoiAckHold && d.last then { d with dataOut := false }.enter .readyToReceive
    else if t > eoiTimeout && !d.last then { d with dataOut := true, last := true }.enter .readyToReceive
    else if d.clk then { d with bit := 0, byte := 0 }.enter .waitDataValid
    else if t > receiveTimeout then d.enter .goToIdle
    else d
  | .waitDataValid =>
    if !d.clk then d.takeBit
    else if t > bitTimeout then d.enter .goToIdle
    else d
  | .waitDataInvalid =>
    if d.clk then d.enter (if d.bit = 8 then .dataAccepted else .waitDataValid)
    else if t > bitTimeout then d.enter .goToIdle
    else d
  | .dataAccepted =>
    if d.data then d
    else
      let d := { d with dataOut := true }.enter (if d.last then .goToIdle else .senderProbing)
      d.receive d.byte
  | .goToIdle =>
    if t ≥ idleSettle then { d with dataOut := false, clkOut := false }.enter .idle else d
  | .turnAround =>
    if d.clk then d else { d with dataOut := false, clkOut := true }.enter .turnAroundReady
  | .turnAroundReady =>
    if t ≥ turnAroundDelay then { d with clkOut := false }.enter .waitReceiverReady else d
  | .waitReceiverReady =>
    if d.data then d else { (d.enter .readyToSend).fetch with bit := 0 }
  | .readyToSend =>
    if d.empty then
      if t > emptyTimeout then d.enter .goToIdle else d
    else if d.last then
      if t > eoiSignal && d.data then d.enter .waitEndOfEoiAck else d
    else if t > bitTime then { d with clkOut := true }.enter .sendDataInvalid
    else d
  | .waitEndOfEoiAck =>
    if d.data then d else { d with clkOut := true }.enter .sendDataInvalid
  | .sendDataInvalid => if t > bitTime then d.putBit else d
  | .sendDataValid =>
    if t > bitTime then
      let d : Drive σ := { d with clkOut := true }
      if d.bit = 8 then { d with dataOut := false }.enter .waitDataAccepted
      else d.enter .sendDataInvalid
    else d
  | .waitDataAccepted =>
    if d.data then d.enter (if d.last then .goToIdle else .turnAroundReady) else d

/-- Advances by cycles. -/
def tick (d : Drive σ) (cycles : Nat) : Drive σ :=
  let d := d.answerAttention
  if d.active then { d with elapsed := d.elapsed + cycles }.step else d

end Vic20.Drive
