import Vic20.Proofs.Via.OneShot

/-! How a time is divided into ticks. The counters of timers that have expired depend on it, but what they show does
not, and neither does when a timer expires, unless its counter passes the lowest word of 32 bits on the way and goes on
from the highest. That takes a counter far below zero to begin with, as timer one can have after it has run freely. -/

namespace Vic20.Via

variable {σ : Type} [Wiring σ]

/-! ### Ticks -/

/-- Ticks and nothing else. -/
def tickAll (via : Via) (xs : List UInt32) : Via := xs.foldl (fun via cycles => (via.tick cycles).2) via

theorem tickAll_eq (via : Via) (xs : List UInt32) :
    via.tickAll xs = via.performAll (xs.map .tick : List (Operation σ)) := by
  rw [performAll, List.foldl_map]
  rfl

theorem CountsDown.tickAll {via : Via} {c : Countdown} (h : CountsDown via c) {xs : List UInt32}
    (hfits : c.Fits (total xs)) : CountsDown (via.tickAll xs) (c.after xs) := by
  have hticks : ticks (xs.map .tick : List (Operation Unit)) = xs := by
    simp [ticks, Operation.ticks, List.flatMap_map]
  have hleaves : ∀ o ∈ (xs.map .tick : List (Operation Unit)), o.LeavesTimer1 := by simp [Operation.LeavesTimer1]
  have hrun := h.run hleaves (hticks.symm ▸ hfits.takes)
  rwa [hticks, ← tickAll_eq] at hrun

theorem counted_ticks (via : Via) (xs : List UInt32) :
    via.counted (xs.map .tick : List (Operation σ)) = if via.auxiliary &&& countPulsesBit = 0 then xs else [] := by
  induction xs generalizing via with
  | nil => exact (ite_self _).symm
  | cons x xs ih =>
    rw [List.map_cons, counted, ih]
    change (if via.auxiliary &&& countPulsesBit = 0 then [x] else []) ++
      (if via.auxiliary &&& countPulsesBit = 0 then xs else []) = _
    split <;> rfl

end Vic20.Via
