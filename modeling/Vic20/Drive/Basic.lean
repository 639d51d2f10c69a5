import Vic20.Drive.Channel
import Vic20.Drive.Link
import Vic20.Inspect
import Vic20.Text.Numeral

/-! A disk drive on the serial bus, as the computer sees it. On every line `true` stands for a line
pulled low. -/

namespace Vic20

/-- The drive's state over storage of type `σ`. The lines `atn`, `clk` and `data` are inputs, `seenAtn`
is the attention line at the last tick. `elapsed` counts cycles in the link state. `last` marks the
byte in transit as the last; `empty` tells that there is nothing to send. -/
structure Drive (σ : Type) where
  device : UInt8
  storage : Option σ := none
  longDirectory : Bool := false
  atn : Bool := false
  clk : Bool := false
  data : Bool := false
  seenAtn : Bool := false
  clkOut : Bool := false
  dataOut : Bool := false
  link : Drive.Link := .idle
  elapsed : Nat := 0
  bit : UInt8 := 0
  byte : UInt8 := 0
  last : Bool := false
  empty : Bool := false
  arbitration : Drive.Arbitration := .idle
  channel : Option UInt8 := none
  channels : Vector Drive.Channel Drive.channelCount := Vector.replicate _ .closed
  buffer : Array UInt8 := #[]
  journal : Array Drive.Event := #[]

namespace Drive

variable {σ : Type}

def new (device : UInt8) : Drive σ := { device }

/-- Lets go of both lines and forgets all transfers. Storage and the form of listings are kept. -/
def reset (d : Drive σ) : Drive σ :=
  { device := d.device, storage := d.storage, longDirectory := d.longDirectory, journal := d.journal }

def note (d : Drive σ) (e : Event) : Drive σ := { d with journal := d.journal.push e }

/-- The events noted since this was last asked. -/
def takeJournal (d : Drive σ) : Array Event × Drive σ := (d.journal, { d with journal := #[] })

def enter (d : Drive σ) (link : Link) : Drive σ := { d with link, elapsed := 0 }

/-- Whether the drive has to be ticked: attention is asserted, or it is addressed. -/
def active (d : Drive σ) : Bool := d.atn || d.arbitration != .idle

/-- Sets the attention line. A drive that is not addressed lets go of the bus as soon as attention
ends, since it is not ticked any more. -/
def setAtn (d : Drive σ) (pulled : Bool) : Drive σ :=
  let d :=
    if d.atn && !pulled && d.arbitration == .idle then
      { d with seenAtn := false, clkOut := false, dataOut := false }.enter .idle
    else d
  { d with atn := pulled }

def setClk (d : Drive σ) (pulled : Bool) : Drive σ := { d with clk := pulled }

def setData (d : Drive σ) (pulled : Bool) : Drive σ := { d with data := pulled }

/-- A channel by number, if there is one. -/
def channel? (d : Drive σ) (n : Nat) : Option Channel := d.channels[n]?

/-- The channel in use. -/
def current? (d : Drive σ) : Option Channel := d.channel >>= fun n => d.channel? n.toNat

def setChannel (d : Drive σ) (n : UInt8) (c : Channel) : Drive σ :=
  { d with channels := d.channels.setIfInBounds n.toNat c }

/-- Replaces the channel in use. -/
def setCurrent (d : Drive σ) (c : Channel) : Drive σ :=
  match d.channel with
  | some n => d.setChannel n c
  | none => d

def queryChannel (d : Drive σ) (digits : String) : Option Value := do
  let n ← Numeral.parse? 10 0x10000000000000000 digits.toList
  let c ← d.channel? n
  return .text c.kind

instance : Inspect (Drive σ) where
  query d
    | "device" => some (.byte d.device)
    | "link" => some (.text d.link.name)
    | "arb" => some (.text d.arbitration.name)
    | "channel" => some ((d.channel.map Value.byte).getD (.text "none"))
    | "atn" => some (.bool d.atn)
    | "clk" => some (.bool d.clk)
    | "data" => some (.bool d.data)
    | "clk_out" => some (.bool d.clkOut)
    | "data_out" => some (.bool d.dataOut)
    | "eoi" => some (.bool d.last)
    | "empty" => some (.bool d.empty)
    | "active" => some (.bool d.active)
    | path => if path.startsWith "channels." then d.queryChannel (path.drop 9).toString else none
  paths := ["device", "link", "arb", "channel", "atn", "clk", "data", "clk_out", "data_out", "eoi",
    "empty", "active"]

end Drive
end Vic20
