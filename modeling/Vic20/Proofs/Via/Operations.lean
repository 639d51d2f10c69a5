import Mathlib.Algebra.GroupWithZero.Nat
import Vic20.Machine.Board
import Vic20.Proofs.Via.Flags

/-! What can happen to an adapter. The machine sets its pins and lines, and a wiring may do so too when a port is about
to be read. That leaves the timers and the control registers alone, as do most accesses to a register. -/

namespace Vic20

namespace Via

/-- What the machine can do to pins and lines. -/
inductive Signal where
  | setA (v : UInt8)
  | setB (v : UInt8)
  | setBitA (bit : UInt8) (on : Bool)
  | setBitB (bit : UInt8) (on : Bool)
  | openBitA (bit : UInt8)
  | openBitB (bit : UInt8)
  | setCA1 (level : Bool)
  | setCA2 (level : Bool)
  | setCB1 (level : Bool)
  | setCB2 (level : Bool)
  deriving DecidableEq, Repr

def signal (via : Via) : Signal → Via
  | .setA v => via.setA v
  | .setB v => via.setB v
  | .setBitA bit on => via.setBitA bit on
  | .setBitB bit on => via.setBitB bit on
  | .openBitA bit => via.openBitA bit
  | .openBitB bit => via.openBitB bit
  | .setCA1 level => via.setCA1 level
  | .setCA2 level => via.setCA2 level
  | .setCB1 level => via.setCB1 level
  | .setCB2 level => via.setCB2 level

def signals (via : Via) (ss : List Signal) : Via := ss.foldl signal via

theorem signals_append (via : Via) (ss more : List Signal) :
    via.signals (ss ++ more) = (via.signals ss).signals more := List.foldl_append

/-- A wiring that drives a port by setting pins and lines. -/
class Signalling (σ : Type) [Wiring σ] : Prop where
  portIn (wires : σ) (via : Via) (pin : Pin) : ∃ ss, (Wiring.portIn wires via pin).1 = via.signals ss

instance : Signalling Unit where
  portIn _ _ _ := ⟨[], rfl⟩

end Via

namespace Board

variable {σ : Type}

theorem driveSwitch_signals (j : Joystick) (via : Via) (s : Switch) : ∃ ss, driveSwitch j via s = via.signals ss := by
  unfold driveSwitch
  cases s.portBit with
  | none => exact ⟨[], rfl⟩
  | some bit =>
    by_cases hclosed : j.get s = true
    · exact ⟨[.setBitA bit false], if_pos hclosed⟩
    · exact ⟨[.openBitA bit], if_neg hclosed⟩

theorem driveSwitches_signals (j : Joystick) (via : Via) (switches : List Switch) :
    ∃ ss, switches.foldl (driveSwitch j) via = via.signals ss := by
  induction switches generalizing via with
  | nil => exact ⟨[], rfl⟩
  | cons s switches ih =>
    obtain ⟨ss, hs⟩ := driveSwitch_signals j via s
    obtain ⟨more, hmore⟩ := ih (driveSwitch j via s)
    refine ⟨ss ++ more, ?_⟩
    rw [List.foldl_cons, hmore, hs, Via.signals_append]

instance : Via.Signalling (Wires1 σ) where
  portIn w via pin := by
    cases pin with
    | a => exact driveSwitches_signals w.joystick via Switch.all
    | b | ca2 | cb2 => exact ⟨[], rfl⟩

instance : Via.Signalling (Wires2 σ) where
  portIn w via pin := by
    cases pin with
    | a => exact ⟨[.setA w.keyboard.rowStatus], rfl⟩
    | b =>
      by_cases hright : w.joystick.right = true
      · refine ⟨[.setB w.keyboard.columnStatus, .setBitB rightBit false], ?_⟩
        exact if_pos hright
      · refine ⟨[.setB w.keyboard.columnStatus], ?_⟩
        exact if_neg hright
    | ca2 | cb2 => exact ⟨[], rfl⟩

end Board

namespace Via

variable {σ : Type}

/-- What happens to an adapter, with what a register access finds on the pins. -/
inductive Operation (σ : Type) where
  | read (register : UInt8) (wires : σ)
  | write (register v : UInt8) (wires : σ)
  | signal (s : Signal)
  | tick (cycles : UInt32)
  | reset

/-- The time that passes. -/
def Operation.cycles : Operation σ → Nat
  | .tick cycles => cycles.toNat
  | _ => 0

def elapsed (os : List (Operation σ)) : Nat := (os.map Operation.cycles).sum

theorem elapsed_cons (o : Operation σ) (os : List (Operation σ)) : elapsed (o :: os) = o.cycles + elapsed os := rfl

/-- The operation is a tick that sets the flag, or would set it if it was clear. -/
def raises (via : Via) (s : Source) : Operation σ → Bool
  | .tick cycles => ((via.clear s.flag).tick cycles).2.has s
  | _ => false

theorem raises_tick (via : Via) (s : Source) (cycles : UInt32) :
    via.raises s (.tick cycles : Operation σ) = s.occurs via cycles := by
  change ((via.clear s.flag).tick cycles).2.has s = _
  rw [tick_has, has_clear]
  cases s <;> rfl

variable [Wiring σ]

def perform (via : Via) : Operation σ → Via
  | .read register wires => (via.read register wires).2.1
  | .write register v wires => (via.write register v wires).1
  | .signal s => via.signal s
  | .tick cycles => (via.tick cycles).2
  | .reset => .new

def performAll (via : Via) (os : List (Operation σ)) : Via := os.foldl perform via

/-- How many operations raise a flag. -/
def timesRaised (via : Via) (s : Source) : List (Operation σ) → Nat
  | [] => 0
  | o :: os => (via.raises s o).toNat + (via.perform o).timesRaised s os

/-! ### Accesses -/

/-- The flags that a read clears. -/
def readMask (register : Nat) : UInt8 :=
  match register with
  | 0x0 => cb1Flag ||| cb2Flag
  | 0x1 => ca1Flag ||| ca2Flag
  | 0x4 => timer1Flag
  | 0x8 => timer2Flag
  | _ => 0

theorem and_not_zero (x : UInt8) : x &&& ~~~0 = x := by
  simp

theorem clear_none (via : Via) : via.clear 0 = via := by
  rw [clear, and_not_zero]

/-- A read of a port takes flags away, and then finds on the pins what the wiring puts there. -/
theorem read_portB (via : Via) {register : UInt8} (hregister : register.toNat % 16 = 0x0) (wires : σ) :
    via.read register wires =
      let seen := Wiring.portIn wires (via.clear (readMask (register.toNat % 16))) .b
      (seen.1.b.latch, seen) := by
  rw [hregister]
  simp only [read, hregister]
  rfl

theorem read_portA (via : Via) {register : UInt8}
    (hregister : register.toNat % 16 = 0x1 ∨ register.toNat % 16 = 0xF) (wires : σ) :
    via.read register wires =
      let seen := Wiring.portIn wires (via.clear (readMask (register.toNat % 16))) .a
      (seen.1.a.latch, seen) := by
  obtain hregister | hregister := hregister
  · rw [hregister]
    simp only [read, hregister]
    rfl
  · have hnone : via.clear (readMask 0xF) = via := via.clear_none
    rw [hregister, hnone]
    simp only [read, hregister]
    rfl

/-- The other registers have no wiring. -/
theorem read_inside (via : Via) {register : UInt8}
    (hregister : register.toNat % 16 ≠ 0x0 ∧ register.toNat % 16 ≠ 0x1 ∧ register.toNat % 16 ≠ 0xF) (wires : σ) :
    (via.read register wires).2 = (via.clear (readMask (register.toNat % 16)), wires) := by
  have hlt : register.toNat % 16 < 16 := Nat.mod_lt _ (by omega)
  unfold read
  split
  next h => exact absurd h hregister.1
  next h => exact absurd h hregister.2.1
  rotate_right
  · have hlast : register.toNat % 16 = 0xF := by grind
    exact absurd hlast hregister.2.2
  all_goals
    next h =>
      rw [h]
      first | rfl | exact congrArg (·, wires) via.clear_none.symm

theorem writePeripheral_fst (via : Via) (v : UInt8) (wires : σ) :
    (via.writePeripheral v wires).1 =
      { via with
        peripheral := v
        ca2 := (forcedLevel (v >>> 1)).getD via.ca2
        cb2 := (forcedLevel (v >>> 5)).getD via.cb2 } := by
  unfold writePeripheral
  cases forcedLevel (v >>> 1) <;> cases forcedLevel (v >>> 5) <;> rfl

/-! ### What stays the same -/

/-- What every signal keeps is kept as a port is driven. -/
theorem portIn_keeps [Signalling σ] {P : Via → Prop} (hsignal : ∀ via s, P via → P (via.signal s)) {via : Via}
    (h : P via) (wires : σ) (pin : Pin) : P (Wiring.portIn wires via pin).1 := by
  obtain ⟨ss, hss⟩ := Signalling.portIn wires via pin
  rw [hss]
  clear hss
  induction ss generalizing via with
  | nil => exact h
  | cons s ss ih => exact ih (hsignal via s h)

/-- A read keeps what every signal keeps, but for the flags that it clears. -/
theorem read_keeps [Signalling σ] (via : Via) {P : Via → Prop} (hsignal : ∀ via s, P via → P (via.signal s))
    (register : UInt8) (h : P (via.clear (readMask (register.toNat % 16)))) (wires : σ) :
    P (via.read register wires).2.1 := by
  by_cases hb : register.toNat % 16 = 0x0
  · rw [via.read_portB hb]
    exact portIn_keeps hsignal h wires .b
  by_cases ha : register.toNat % 16 = 0x1 ∨ register.toNat % 16 = 0xF
  · rw [via.read_portA ha]
    exact portIn_keeps hsignal h wires .a
  rw [via.read_inside ⟨hb, not_or.1 ha⟩]
  exact h

/-- What every operation keeps is kept by all of them together. -/
theorem performAll_keeps {P : Via → Prop} (hperform : ∀ (via : Via) (o : Operation σ), P via → P (via.perform o))
    {via : Via} (h : P via) (os : List (Operation σ)) : P (via.performAll os) := by
  induction os generalizing via with
  | nil => exact h
  | cons o os ih => exact ih (hperform via o h)

/-- The timers and how they run are the same. -/
structure SameTiming (via via' : Via) : Prop where
  timer1 : via'.timer1 = via.timer1
  timer2 : via'.timer2 = via.timer2
  auxiliary : via'.auxiliary = via.auxiliary

namespace SameTiming

variable {via via' via'' : Via}

theorem refl (via : Via) : SameTiming via via := ⟨rfl, rfl, rfl⟩

theorem trans (h : SameTiming via via') (h' : SameTiming via' via'') : SameTiming via via'' :=
  ⟨h'.timer1.trans h.timer1, h'.timer2.trans h.timer2, h'.auxiliary.trans h.auxiliary⟩

end SameTiming

theorem clear_timing (via : Via) (flags : UInt8) : SameTiming via (via.clear flags) := ⟨rfl, rfl, rfl⟩

theorem signal_timing (via : Via) (s : Signal) : SameTiming via (via.signal s) := by
  cases s <;> exact ⟨rfl, rfl, rfl⟩

theorem read_timing [Signalling σ] (via : Via) (register : UInt8) (wires : σ) :
    SameTiming via (via.read register wires).2.1 :=
  via.read_keeps (fun _ s hsame => hsame.trans (signal_timing _ s)) register (via.clear_timing _) wires

theorem writePeripheral_timing (via : Via) (v : UInt8) (wires : σ) :
    SameTiming via (via.writePeripheral v wires).1 := by
  rw [writePeripheral_fst]
  exact ⟨rfl, rfl, rfl⟩

/-- What a write to a register leaves alone. -/
structure Spared (register : UInt8) (via via' : Via) : Prop where
  timer1 : register.toNat % 16 < 4 ∨ 7 < register.toNat % 16 → via'.timer1 = via.timer1
  timer2 : register.toNat % 16 ≠ 8 ∧ register.toNat % 16 ≠ 9 → via'.timer2 = via.timer2
  auxiliary : register.toNat % 16 ≠ 0xB → via'.auxiliary = via.auxiliary

theorem write_spared (via : Via) (register v : UInt8) (wires : σ) :
    Spared register via (via.write register v wires).1 := by
  have hperipheral := via.writePeripheral_timing v wires
  unfold write
  split
  all_goals
    constructor
    -- each register that sets one of them is among those left out
    all_goals
      intro h
      first
        | rfl
        | omega
        | exact hperipheral.timer1
        | exact hperipheral.timer2
        | exact hperipheral.auxiliary

end Via
end Vic20
