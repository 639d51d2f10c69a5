import Vic20.Proofs.Via.Ports

/-! Reads of an adapter whose wiring drives pins and does nothing else. Such a read takes flags away and sets levels on
the port that it reads, and a second read finds everything as the first has left it. -/

namespace Vic20

namespace Via

/-- A wiring that puts levels on the pins of a port that is about to be read, and the same levels when it is read
again. -/
class Driving (σ : Type) [Wiring σ] where
  levelsA : σ → Port → UInt8
  levelsB : σ → Port → UInt8
  drivesA (wires : σ) {via : Via} (h : Latched via) :
    Wiring.portIn wires via .a = (via.setA (levelsA wires via.a), wires)
  drivesB (wires : σ) {via : Via} (h : Latched via) :
    Wiring.portIn wires via .b = (via.setB (levelsB wires via.b), wires)
  steadyA (wires : σ) (p : Port) :
    levelsA wires { p with pins := levelsA wires p }.latchPins = levelsA wires p
  steadyB (wires : σ) (p : Port) :
    levelsB wires { p with pins := levelsB wires p }.latchMixed = levelsB wires p

/-- The register is the data of a port. -/
def PortData (register : UInt8) : Prop :=
  register.toNat % 16 = 0x0 ∨ register.toNat % 16 = 0x1 ∨ register.toNat % 16 = 0xF

/-- Flags and levels on the pins may differ, with the latches that follow the pins, and nothing else. -/
def Repinned (via via' : Via) : Prop :=
  ∃ flags a b, via' = (({ via with flags } : Via).setA a).setB b

variable {via : Via}

theorem Latched.setA_pins (h : Latched via) : via.setA via.a.pins = via := by
  have ha : via.a.latchPins = via.a := congrArg (fun latch => { via.a with latch }) h.a.symm
  exact congrArg (fun a => { via with a }) ha

theorem Latched.setB_pins (h : Latched via) : via.setB via.b.pins = via := by
  have hb : via.b.latchMixed = via.b := congrArg (fun latch => { via.b with latch }) h.b.symm
  exact congrArg (fun b => { via with b }) hb

namespace Repinned

theorem clear (h : Latched via) (flags : UInt8) : Repinned via (via.clear flags) := by
  have hcleared := h.clear flags
  refine ⟨via.flags &&& ~~~flags, via.a.pins, via.b.pins, ?_⟩
  exact hcleared.setB_pins.symm.trans (congrArg (·.setB via.b.pins) hcleared.setA_pins.symm)

theorem setA (h : Latched via) (flags v : UInt8) : Repinned via ((via.clear flags).setA v) := by
  have hset : Latched ((via.clear flags).setA v) := (h.clear flags).signal (.setA v)
  exact ⟨via.flags &&& ~~~flags, v, via.b.pins, hset.setB_pins.symm⟩

theorem setB (h : Latched via) (flags v : UInt8) : Repinned via ((via.clear flags).setB v) :=
  ⟨via.flags &&& ~~~flags, via.a.pins, v, congrArg (·.setB v) (h.clear flags).setA_pins.symm⟩

end Repinned

/-! ### Registers without pins -/

section Inside

variable {σ τ : Type} [Wiring σ] [Wiring τ] {register : UInt8}

/-- What is read from a register that is not a port's does not depend on the wiring, nor on the flags that the read
takes away. -/
theorem read_value (h : ¬PortData register) (via : Via) (wires : σ) (wires' : τ) :
    (via.read register wires).1 = (via.read register wires').1 ∧
      ((via.clear (readMask (register.toNat % 16))).read register wires).1 = (via.read register wires).1 := by
  obtain ⟨hb, ha, ha'⟩ := (not_or.1 h).imp_right not_or.1
  have hlt : register.toNat % 16 < 16 := Nat.mod_lt _ (by omega)
  have hnone : via.clear 0 = via := via.clear_none
  unfold read
  split
  next h => exact absurd h hb
  next h => exact absurd h ha
  rotate_right
  · grind
  all_goals
    next h =>
      rw [h]
      -- only the flag register shows flags, and its own read takes none away
      first | exact ⟨rfl, rfl⟩ | exact ⟨rfl, congrArg flagRegister hnone⟩

end Inside

/-! ### Reads -/

variable {σ : Type} [Wiring σ] [Driving σ] (register : UInt8) (wires : σ)

theorem clear_clear (via : Via) (flags : UInt8) : (via.clear flags).clear flags = via.clear flags := by
  simp only [clear, UInt8.and_assoc, UInt8.and_self]

/-- Flags taken away and levels set once more change nothing. -/
theorem setA_again (via : Via) (flags v : UInt8) :
    (((via.clear flags).setA v).clear flags).setA v = (via.clear flags).setA v :=
  congrArg (·.setA v) (clear_clear via flags)

theorem setB_again (via : Via) (flags v : UInt8) :
    (((via.clear flags).setB v).clear flags).setB v = (via.clear flags).setB v :=
  congrArg (·.setB v) (clear_clear via flags)

/-- A read of a port sets levels on its pins. -/
theorem read_portA_driven (h : Latched via)
    (hregister : register.toNat % 16 = 0x1 ∨ register.toNat % 16 = 0xF) :
    let levels := Driving.levelsA wires via.a
    via.read register wires = (levels, (via.clear (readMask (register.toNat % 16))).setA levels, wires) := by
  rw [via.read_portA hregister, Driving.drivesA wires (h.clear _)]
  rfl

theorem read_portB_driven (h : Latched via) (hregister : register.toNat % 16 = 0x0) :
    let levels := Driving.levelsB wires via.b
    let driven := (via.clear (readMask (register.toNat % 16))).setB levels
    via.read register wires = (driven.b.latch, driven, wires) := by
  rw [via.read_portB hregister, Driving.drivesB wires (h.clear _)]
  rfl

/-- A read leaves the wiring alone, and the adapter but for flags and pins. -/
theorem read_repinned (h : Latched via) :
    Repinned via (via.read register wires).2.1 ∧ (via.read register wires).2.2 = wires := by
  by_cases hb : register.toNat % 16 = 0x0
  · rw [read_portB_driven register wires h hb]
    exact ⟨.setB h _ _, rfl⟩
  by_cases ha : register.toNat % 16 = 0x1 ∨ register.toNat % 16 = 0xF
  · rw [read_portA_driven register wires h ha]
    exact ⟨.setA h _ _, rfl⟩
  rw [via.read_inside ⟨hb, not_or.1 ha⟩]
  exact ⟨.clear h _, rfl⟩

/-- A second read has the same result and leaves all as it is. -/
theorem read_again (h : Latched via) :
    (via.read register wires).2.1.read register wires = via.read register wires := by
  have hcleared := h.clear (readMask (register.toNat % 16))
  by_cases hb : register.toNat % 16 = 0x0
  · have hread := read_portB_driven register wires h hb
    have hagain := read_portB_driven register wires (hcleared.signal (.setB (Driving.levelsB wires via.b))) hb
    have hsteady : Driving.levelsB wires ((via.clear (readMask (register.toNat % 16))).setB
        (Driving.levelsB wires via.b)).b = Driving.levelsB wires via.b := Driving.steadyB wires via.b
    simp only [signal, hsteady, setB_again] at hagain
    rw [hread]
    exact hagain
  by_cases ha : register.toNat % 16 = 0x1 ∨ register.toNat % 16 = 0xF
  · have hread := read_portA_driven register wires h ha
    have hagain := read_portA_driven register wires (hcleared.signal (.setA (Driving.levelsA wires via.a))) ha
    have hsteady : Driving.levelsA wires ((via.clear (readMask (register.toNat % 16))).setA
        (Driving.levelsA wires via.a)).a = Driving.levelsA wires via.a := Driving.steadyA wires via.a
    simp only [signal, hsteady, setA_again] at hagain
    rw [hread]
    exact hagain
  · have hinside := via.read_inside ⟨hb, not_or.1 ha⟩ wires
    have hvalue := (read_value (not_or.2 ⟨hb, ha⟩) via wires wires).2
    rw [hinside]
    refine Prod.ext hvalue ?_
    rw [read_inside _ ⟨hb, not_or.1 ha⟩, hinside, clear_clear]

/-! ### Nothing on the pins -/

/-- Pins stay as they are if nothing drives them. -/
instance : Driving Unit where
  levelsA _ p := p.pins
  levelsB _ p := p.pins
  drivesA _ _ h := congrArg (·, ()) h.setA_pins.symm
  drivesB _ _ h := congrArg (·, ()) h.setB_pins.symm
  steadyA _ _ := rfl
  steadyB _ _ := rfl

/-- What is read from a port with nothing on its pins: on port B the output register where it drives them, else the
levels that they have. -/
def undriven (via : Via) (register : UInt8) : UInt8 :=
  if register.toNat % 16 = 0x0 then via.b.output &&& via.b.direction ||| via.b.pins &&& ~~~via.b.direction
  else via.a.pins

theorem read_undriven (h : Latched via) {register : UInt8} (hregister : PortData register) :
    (via.read register ()).1 = via.undriven register := by
  unfold undriven
  by_cases hb : register.toNat % 16 = 0x0
  · rw [if_pos hb, read_portB_driven register () h hb]
    rfl
  · rw [if_neg hb, read_portA_driven register () h (hregister.resolve_left hb)]
    rfl

end Via
end Vic20
