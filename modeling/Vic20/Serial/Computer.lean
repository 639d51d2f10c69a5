import Vic20.Drive.Handshake

/-! The computer's end of the serial bus, with one drive at the other end. Time passes for the drive while
the computer waits. A wait that lasts too long ends the conversation and leaves the lines as they are. -/

namespace Vic20.Serial

/-- A wait for something that did not come. -/
structure Timeout where
  what : String
  deriving DecidableEq, Repr

/-- What the computer does with a drive over storage `σ`. -/
abbrev Bus (σ : Type) := ExceptT Timeout (StateM (Drive σ))

variable {σ : Type} [Storage σ]

/-- Changes lines. -/
def lines (f : Drive σ → Drive σ) : Bus σ Unit := modify f

def pass (cycles : Nat) : Bus σ Unit := modify (·.tick cycles)

/-- Passes ten cycles at a time, at most so often, until the drive shows what is waited for. -/
def waitFor (what : String) (shown : Drive σ → Bool) : (turns : Nat) → (waited : Nat) → Bus σ Nat
  | 0, _ => throw ⟨what⟩
  | turns + 1, waited => do
    if shown (← get) then return waited
    pass 10
    waitFor what shown turns (waited + 10)

/-- Waits, and gives the cycles waited. -/
def wait (what : String) (shown : Drive σ → Bool) : Bus σ Nat := waitFor what shown 1000 0

def attention : Bus σ Unit := do
  lines (·.setClk true)
  lines (·.setAtn true)
  pass 10

def release : Bus σ Unit := do
  lines (·.setAtn false)
  pass 10

/-- Sends the bits of a byte, least significant first. A one lets go of the data line. -/
def sendBits (v : UInt8) : (bits : Nat) → Bus σ Unit
  | 0 => pure ()
  | bits + 1 => do
    lines (·.setData (v &&& 1 == 0))
    lines (·.setClk false)
    pass 20
    lines (·.setClk true)
    pass 20
    sendBits (v >>> 1) bits

/-- Sends a byte, marked as the last if it is. Gives whether the drive acknowledges it. -/
def send (v : UInt8) (last : Bool) : Bus σ Bool := do
  lines (·.setClk false)
  let _ ← wait "listener" (!·.dataOut)
  if last then
    let _ ← wait "eoi ack" (·.dataOut)
    let _ ← wait "eoi end" (!·.dataOut)
  lines (·.setClk true)
  pass 20
  sendBits v 8
  lines (·.setData false)
  pass 20
  return (← get).dataOut

/-- Sends bytes under attention. -/
def command (bytes : List UInt8) : Bus σ (List Bool) := do
  attention
  let acks ← bytes.mapM (send · false)
  release
  return acks

/-- Sends bytes, the last marked as such. -/
def sendAll : List UInt8 → Bus σ (List Bool)
  | [] => return []
  | [v] => return [← send v true]
  | v :: vs => do
    let ack ← send v false
    return ack :: (← sendAll vs)

/-- Hands the clock over to the drive, which is to talk. -/
def turnAround : Bus σ Nat := do
  lines (·.setData true)
  lines (·.setAtn false)
  lines (·.setClk false)
  wait "drive takes clk" (·.clkOut)

/-- Waits for the talker to begin a byte. A talker that keeps silent means that the byte is its last;
one that has gone idle has no byte. -/
def awaitTalker : (turns : Nat) → (last : Bool) → (waited : Nat) → Bus σ (Option Bool)
  | 0, _, _ => throw ⟨"talker start"⟩
  | turns + 1, last, waited => do
    let d ← get
    if d.clkOut then return some last
    if d.link = .idle then return none
    if waited > 10000 then throw ⟨"talker start"⟩
    let answers := !last && waited > 250
    if answers then
      lines (·.setData true)
      pass 80
      lines (·.setData false)
    pass 10
    awaitTalker turns (last || answers) (waited + 10)

/-- Receives the bits of a byte, least significant first. -/
def receiveBits : (bits : List UInt8) → (v : UInt8) → Bus σ UInt8
  | [], v => return v
  | bit :: bits, v => do
    let _ ← wait "bit valid" (!·.clkOut)
    let v := if (← get).dataOut then v else v ||| 1 <<< bit
    let _ ← wait "bit end" (·.clkOut)
    receiveBits bits v

/-- Receives a byte and whether it is the last, or nothing. -/
def receive : Bus σ (Option (UInt8 × Bool)) := do
  let _ ← wait "talker ready" (!·.clkOut)
  lines (·.setData false)
  match ← awaitTalker 1002 false 0 with
  | none => return none
  | some last =>
    let v ← receiveBits [0, 1, 2, 3, 4, 5, 6, 7] 0
    lines (·.setData true)
    pass 10
    return some (v, last)

/-- How a run of received bytes came to its end. -/
inductive Ending where
  | full | silent | last
  deriving DecidableEq, Repr

/-- Receives bytes up to a limit, to the last or until none comes. -/
def receiveAll : (limit : Nat) → Bus σ (List UInt8 × Ending)
  | 0 => return ([], .full)
  | limit + 1 => do
    match ← receive with
    | none => return ([], .silent)
    | some (v, true) => return ([v], .last)
    | some (v, false) =>
      let (vs, ending) ← receiveAll limit
      return (v :: vs, ending)

/-- The commands with an address. -/
def listenTo (device : UInt8) : UInt8 := 0x20 ||| device
def talkTo (device : UInt8) : UInt8 := 0x40 ||| device
def secondary (channel : UInt8) : UInt8 := 0x60 ||| channel
def closeSecondary (channel : UInt8) : UInt8 := 0xE0 ||| channel
def openSecondary (channel : UInt8) : UInt8 := 0xF0 ||| channel
def unlisten : UInt8 := 0x3F
def untalk : UInt8 := 0x5F

/-- Addresses a listener, sends it bytes, and lets go of it. Gives the acknowledgements of the three
parts. -/
def tell (device second : UInt8) (bytes : List UInt8) : Bus σ (List Bool × List Bool × List Bool) := do
  let before ← command [listenTo device, second]
  let middle ← sendAll bytes
  let after ← command [unlisten]
  return (before, middle, after)

/-- Opens a channel by name. -/
def openChannel (device channel : UInt8) (name : List UInt8) : Bus σ (List Bool × List Bool × List Bool) :=
  tell device (openSecondary channel) name

def closeChannel (device channel : UInt8) : Bus σ (List Bool) :=
  command [listenTo device, closeSecondary channel, unlisten]

/-- Sends data to a channel. -/
def save (device channel : UInt8) (data : List UInt8) : Bus σ (List Bool × List Bool × List Bool) :=
  tell device (secondary channel) data

/-- Has a channel talk, and receives up to a limit of bytes. -/
def talk (device channel : UInt8) (limit : Nat) : Bus σ (List UInt8 × Ending) := do
  attention
  let _ ← send (talkTo device) false
  let _ ← send (secondary channel) false
  let _ ← turnAround
  let received ← receiveAll limit
  let _ ← command [untalk]
  return received

end Vic20.Serial
