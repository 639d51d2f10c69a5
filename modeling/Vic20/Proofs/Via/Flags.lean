import Vic20.Via.Access

/-! The interrupt flags one at a time. A tick sets the flag of each thing that it notices and takes no flag away. -/

namespace Vic20.Via

/-- What a tick can notice. -/
inductive Source where
  | timer1 | timer2 | ca1 | cb1
  deriving DecidableEq, Repr

namespace Source

def flag : Source → UInt8
  | timer1 => timer1Flag
  | timer2 => timer2Flag
  | ca1 => ca1Flag
  | cb1 => cb1Flag

/-- A tick of so many cycles notices it. -/
def occurs (s : Source) (via : Via) (cycles : UInt32) : Bool :=
  match s with
  | timer1 => (via.timer1.tick (via.auxiliary &&& freeRunBit != 0) cycles.toInt32).2
  | timer2 => (via.timer2.tick (via.auxiliary &&& countPulsesBit != 0) cycles.toInt32).2
  | ca1 => (via.ca1.sample (via.peripheral &&& ca1RisingBit != 0)).2
  | cb1 => (via.cb1.sample (via.peripheral &&& cb1RisingBit != 0)).2

end Source

/-- The interrupt flag of a source is set. -/
def has (via : Via) (s : Source) : Bool := via.flags &&& s.flag != 0

theorem or_and_distrib (x y mask : UInt8) : (x ||| y) &&& mask = x &&& mask ||| y &&& mask := by
  apply UInt8.toBitVec_inj.1
  ext i
  simp [Bool.and_or_distrib_right]

theorem or_meets (x y mask : UInt8) : ((x ||| y) &&& mask != 0) = (x &&& mask != 0 || y &&& mask != 0) := by
  rw [or_and_distrib, Bool.eq_iff_iff]
  simp only [bne_iff_ne, Bool.or_eq_true, ne_eq, UInt8.or_eq_zero_iff, Decidable.not_and_iff_not_or_not]

theorem or_and_eq_zero {x y mask : UInt8} (hx : x &&& mask = 0) (hy : y &&& mask = 0) : (x ||| y) &&& mask = 0 := by
  have hmeets := or_meets x y mask
  rw [hx, hy] at hmeets
  exact bne_eq_false_iff_eq.1 hmeets

theorem and_and_eq_zero {x mask : UInt8} (h : x &&& mask = 0) (y : UInt8) : x &&& y &&& mask = 0 := by
  rw [UInt8.and_assoc, UInt8.and_comm y, ← UInt8.and_assoc, h, UInt8.zero_and]

theorem flagIf_meets (s t : Source) (occurred : Bool) :
    (flagIf t.flag occurred &&& s.flag != 0) = (occurred && decide (t = s)) := by
  cases s <;> cases t <;> cases occurred <;> rfl

/-- The flags of what has occurred. -/
def marks (occurred : Source → Bool) : UInt8 :=
  flagIf timer1Flag (occurred .timer1) ||| flagIf timer2Flag (occurred .timer2) |||
    flagIf ca1Flag (occurred .ca1) ||| flagIf cb1Flag (occurred .cb1)

theorem marks_flag (occurred : Source → Bool) (s : Source) : (marks occurred &&& s.flag != 0) = occurred s := by
  change ((flagIf Source.timer1.flag (occurred .timer1) ||| flagIf Source.timer2.flag (occurred .timer2) |||
    flagIf Source.ca1.flag (occurred .ca1) ||| flagIf Source.cb1.flag (occurred .cb1)) &&& s.flag != 0) = _
  simp only [or_meets, flagIf_meets]
  cases s <;> simp

/-- The flags that a tick can set. -/
def sourceFlags : UInt8 := timer1Flag ||| timer2Flag ||| ca1Flag ||| cb1Flag

theorem marks_and (occurred : Source → Bool) : marks occurred &&& ~~~sourceFlags = 0 := by
  simp only [marks]
  cases occurred .timer1 <;> cases occurred .timer2 <;> cases occurred .ca1 <;> cases occurred .cb1 <;> rfl

theorem tick_flags (via : Via) (cycles : UInt32) :
    (via.tick cycles).2.flags = via.flags ||| marks (Source.occurs · via cycles) := by
  rw [marks, ← UInt8.or_assoc, ← UInt8.or_assoc, ← UInt8.or_assoc]
  rfl

theorem tick_has (via : Via) (cycles : UInt32) (s : Source) :
    (via.tick cycles).2.has s = (via.has s || s.occurs via cycles) := by
  rw [has, tick_flags, or_meets, marks_flag]
  rfl

theorem has_clear (via : Via) (s : Source) : (via.clear s.flag).has s = false := by
  have hclear : via.flags &&& ~~~s.flag &&& s.flag = 0 := by
    apply UInt8.toBitVec_inj.1
    ext i
    simp
  exact bne_eq_false_iff_eq.2 hclear

/-- The bit that the flag of a source is. -/
def Source.bit : Source → Nat
  | timer1 => 6
  | timer2 => 5
  | ca1 => 1
  | cb1 => 4

theorem and_flag (x : UInt8) (s : Source) : (x &&& s.flag != 0) = x.toBitVec.getLsbD s.bit := by
  have hflag : s.flag.toBitVec = BitVec.twoPow 8 s.bit := by cases s <;> rfl
  have hpower : BitVec.twoPow 8 s.bit ≠ 0#8 := by cases s <;> decide
  have hand : (x &&& s.flag).toBitVec = if x.toBitVec.getLsbD s.bit then BitVec.twoPow 8 s.bit else 0 := by
    rw [UInt8.toBitVec_and, hflag, BitVec.and_twoPow]
    rfl
  rw [Bool.eq_iff_iff, bne_iff_ne, ne_eq, ← UInt8.toBitVec_inj, hand]
  cases x.toBitVec.getLsbD s.bit <;> simp [hpower]

/-- Clearing flags leaves the others. -/
theorem and_not_flag (x mask : UInt8) (s : Source) :
    (x &&& ~~~mask &&& s.flag != 0) = (x &&& s.flag != 0 && !(mask &&& s.flag != 0)) := by
  have hbit : s.bit < 8 := by cases s <;> decide
  rw [and_flag, and_flag, and_flag]
  simp [hbit]

end Vic20.Via
