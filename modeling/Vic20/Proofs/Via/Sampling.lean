import Vic20.Machine.Basic
import Vic20.Proofs.Via.Flags

/-! The edge-sensitive lines between two ticks. A tick compares the level of a line with the level that the last call
has found there, whatever the line was at the tick before. So a call that repeats a level takes back the edge that
the call before it has made. -/

namespace Vic20

namespace Via

/-- The lines that a tick samples. -/
inductive Sampled where
  | ca1 | cb1
  deriving DecidableEq, Repr

namespace Sampled

def source : Sampled → Source
  | ca1 => .ca1
  | cb1 => .cb1

def line : Sampled → Via → Line
  | ca1, via => via.ca1
  | cb1, via => via.cb1

def set : Sampled → Via → Bool → Via
  | ca1, via, level => via.setCA1 level
  | cb1, via, level => via.setCB1 level

def risingBit : Sampled → UInt8
  | ca1 => ca1RisingBit
  | cb1 => cb1RisingBit

/-- The level that ends the chosen edge. -/
def chosen (s : Sampled) (via : Via) : Bool := via.peripheral &&& s.risingBit != 0

/-- Sets the line to one level after the other. -/
def setAll (s : Sampled) (via : Via) (levels : List Bool) : Via := levels.foldl s.set via

variable (s : Sampled) (via : Via)

theorem occurs_source (cycles : UInt32) :
    s.source.occurs via cycles =
      ((s.line via).level != (s.line via).seen && (s.line via).level == s.chosen via) := by
  cases s <;> rfl

theorem line_set (level : Bool) : s.line (s.set via level) = ⟨level, (s.line via).level⟩ := by
  cases s <;> rfl

theorem flags_set (level : Bool) : (s.set via level).flags = via.flags := by
  cases s <;> rfl

theorem peripheral_set (level : Bool) : (s.set via level).peripheral = via.peripheral := by
  cases s <;> rfl

theorem setAll_append (levels : List Bool) (last : Bool) :
    s.setAll via (levels ++ [last]) = s.set (s.setAll via levels) last := List.foldl_append

theorem level_setAll (levels : List Bool) :
    (s.line (s.setAll via levels)).level = levels.getLast?.getD (s.line via).level := by
  rcases levels.eq_nil_or_concat with rfl | ⟨levels, last, rfl⟩
  · rfl
  · rw [List.concat_eq_append, setAll_append, line_set]
    simp

theorem flags_setAll (levels : List Bool) : (s.setAll via levels).flags = via.flags := by
  induction levels generalizing via with
  | nil => rfl
  | cons level levels ih => exact (ih _).trans (s.flags_set via level)

theorem peripheral_setAll (levels : List Bool) : (s.setAll via levels).peripheral = via.peripheral := by
  induction levels generalizing via with
  | nil => rfl
  | cons level levels ih => exact (ih _).trans (s.peripheral_set via level)

/-- The last call decides what the next tick sees. -/
theorem tick_setAll (levels : List Bool) (last : Bool) (cycles : UInt32) :
    ((s.setAll via (levels ++ [last])).tick cycles).2.has s.source =
      (via.has s.source || (last != levels.getLast?.getD (s.line via).level && last == s.chosen via)) := by
  rw [tick_has, occurs_source, has, chosen, flags_setAll, peripheral_setAll, setAll_append, line_set, level_setAll]
  rfl

end Sampled

/-- A rise that a second call repeats before the tick. -/
theorem repeated_call_unseen :
    let via := ((new.write 0xC ca1RisingBit ()).1.tick 1).2
    via.ca1.level = false ∧ Sampled.ca1.chosen via = true ∧
      ((Sampled.ca1.setAll via [true]).tick 1).2.has .ca1 = true ∧
      ((Sampled.ca1.setAll via [true, true]).tick 1).2.has .ca1 = false := by
  decide

end Via

namespace Machine

variable {σ : Type}

theorem via1_setRestore (m : Machine σ) (presses : List Bool) :
    (presses.foldl setRestore m).core.board.via1 = Via.Sampled.ca1.setAll m.core.board.via1 (presses.map (!·)) := by
  induction presses generalizing m with
  | nil => rfl
  | cons pressed presses ih => exact ih (m.setRestore pressed)

/-- Presses the RESTORE key so many times, with no tick in between. -/
def pressRestore (m : Machine σ) (times : Nat) : Machine σ := (List.replicate times true).foldl setRestore m

/-- Only a single press is seen. -/
theorem has_pressRestore (m : Machine σ) (times : Nat) (cycles : UInt32) :
    ((m.pressRestore (times + 1)).core.board.via1.tick cycles).2.has .ca1 =
      (m.core.board.via1.has .ca1 || (decide (times = 0) && m.core.board.via1.ca1.level &&
        !Via.Sampled.ca1.chosen m.core.board.via1)) := by
  have hpresses : (List.replicate (times + 1) true).map (!·) = List.replicate times false ++ [false] := by
    rw [List.map_replicate, List.replicate_succ']
    rfl
  rw [pressRestore, via1_setRestore, hpresses]
  change (Via.tick _ cycles).2.has Via.Sampled.ca1.source = _
  rw [Via.Sampled.tick_setAll]
  cases times with
  | zero =>
    change (_ || (false != m.core.board.via1.ca1.level && _)) = _
    simp [Via.Sampled.source]
  | succ times => simp [List.getLast?_replicate, Via.Sampled.source]

/-- A call that sets an edge-sensitive line makes an edge for the next tick if it changes the level to the chosen
one, whatever the calls before it have done. So one press of the RESTORE key is seen, and more are not. -/
theorem last_call_seen (via : Via) (s : Via.Sampled) (levels : List Bool) (last : Bool) (cycles : UInt32) :
    ((s.setAll via (levels ++ [last])).tick cycles).2.has s.source =
      (via.has s.source || (last != levels.getLast?.getD (s.line via).level && last == s.chosen via)) ∧
    ∀ (m : Machine σ) (times : Nat),
      ((m.pressRestore (times + 1)).core.board.via1.tick cycles).2.has .ca1 =
        (m.core.board.via1.has .ca1 || (decide (times = 0) && m.core.board.via1.ca1.level &&
          !Via.Sampled.ca1.chosen m.core.board.via1)) :=
  ⟨s.tick_setAll via levels last cycles, fun m times => m.has_pressRestore times cycles⟩

end Machine
end Vic20
