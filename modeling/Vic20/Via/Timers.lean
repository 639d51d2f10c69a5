import Vic20.Word

/-! The two interval timers of a VIA. A counter is a signed word of 32 bits, so that a tick of several
cycles can run past zero and carry what is left into the reload; programs see its low sixteen bits. A
counter that runs past the lowest word goes on from the highest. -/

namespace Vic20.Via

/-- A word of sixteen bits as a counter. -/
@[inline] def widen (w : UInt16) : Int32 := w.toUInt32.toInt32

/-- The low sixteen bits of a counter. -/
@[inline] def lowWord (counter : Int32) : UInt16 := counter.toUInt32.toUInt16

/-- Timer one. `fired` tells that a one-shot has already expired. -/
structure Timer1 where
  counter : Int32 := 0
  latch : UInt16 := 0
  fired : Bool := false
  deriving DecidableEq, Repr

namespace Timer1

/-- Counts down, and tells whether the timer expires. Free-running it reloads from the latch, two
cycles late; as a one-shot it expires once and goes on counting from the top. -/
@[inline] def tick (t : Timer1) (freeRun : Bool) (cycles : Int32) : Timer1 × Bool :=
  let counter := t.counter - cycles
  if counter > 0 then ({ t with counter }, false)
  else if freeRun then ({ t with counter := counter + (widen t.latch + 2) }, true)
  else if t.fired then ({ t with counter := widen (lowWord counter) }, false)
  else ({ t with counter := counter + 0xFFFF, fired := true }, true)

def setLatchLow (t : Timer1) (v : UInt8) : Timer1 :=
  { t with latch := word v (highByte t.latch) }

def setLatchHigh (t : Timer1) (v : UInt8) : Timer1 :=
  { t with latch := word (lowByte t.latch) v }

/-- Loads the counter from the latch and arms the one-shot. -/
def start (t : Timer1) : Timer1 :=
  { t with counter := widen t.latch, fired := false }

def shown (t : Timer1) : UInt16 := lowWord t.counter

end Timer1

/-- Timer two, a one-shot with a latch for the low byte only. -/
structure Timer2 where
  counter : Int32 := 0
  latchLow : UInt8 := 0
  fired : Bool := false
  deriving DecidableEq, Repr

namespace Timer2

/-- Counts down, and tells whether the timer expires. While it counts pulses it holds. -/
@[inline] def tick (t : Timer2) (countPulses : Bool) (cycles : Int32) : Timer2 × Bool :=
  if countPulses then (t, false)
  else
    let counter := t.counter - cycles
    if counter ≤ 0 ∧ !t.fired then ({ t with counter := counter + 0xFFFF, fired := true }, true)
    else ({ t with counter }, false)

/-- Loads the counter from a high byte and the latch, and arms the timer. -/
def start (t : Timer2) (high : UInt8) : Timer2 :=
  { t with counter := widen (word t.latchLow high), fired := false }

def shown (t : Timer2) : UInt16 := lowWord t.counter

end Timer2
end Vic20.Via
