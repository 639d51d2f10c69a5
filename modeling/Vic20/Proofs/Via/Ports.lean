import Vic20.Proofs.Via.Operations
import Vic20.Proofs.Via.Wiring

/-! The pins of the two ports. An output pin shows its output register until the machine drives it, an input pin is the
machine's alone, and a latch is what its pins and its output register make of it, whatever has happened to the
adapter. -/

namespace Vic20.Via

namespace Port

theorem mixed_outputs (p : Port) : p.mixed &&& p.direction = p.output &&& p.direction := by
  rw [mixed, or_and_distrib, UInt8.and_assoc, UInt8.and_self, UInt8.and_assoc, UInt8.not_and_self, UInt8.and_zero,
    UInt8.or_zero]

theorem mixed_inputs (p : Port) : p.mixed &&& ~~~p.direction = p.pins &&& ~~~p.direction := by
  rw [mixed, or_and_distrib, UInt8.and_assoc, UInt8.and_not_self, UInt8.and_zero, UInt8.zero_or, UInt8.and_assoc,
    UInt8.and_self]

/-- The pins that are inputs afterwards show what they showed before. -/
def KeepsInputs (p q : Port) : Prop := q.pins &&& ~~~q.direction = p.pins &&& ~~~q.direction

/-- A value was written to the output register: the output pins show it, and nothing else has changed. -/
structure Driven (p q : Port) (v : UInt8) : Prop where
  output : q.output = v
  direction : q.direction = p.direction
  outputs : q.pins &&& q.direction = v &&& q.direction
  inputs : KeepsInputs p q

theorem refresh_keepsInputs (p : Port) : KeepsInputs p p.refresh := p.mixed_inputs

theorem refresh_driven (p : Port) (v latch : UInt8) :
    Driven p { ({ p with output := v } : Port).refresh with latch } v where
  output := rfl
  direction := rfl
  outputs := { p with output := v }.mixed_outputs
  inputs := { p with output := v }.mixed_inputs

end Port

/-! ### What changes the ports -/

/-- The ports are the same. -/
structure SamePorts (via via' : Via) : Prop where
  a : via'.a = via.a
  b : via'.b = via.b

variable {σ : Type} [Wiring σ]

theorem writePeripheral_ports (via : Via) (v : UInt8) (wires : σ) :
    SamePorts via (via.writePeripheral v wires).1 := by
  rw [writePeripheral_fst]
  exact ⟨rfl, rfl⟩

/-- What a write makes of port A. -/
def writtenA (p : Port) (register v : UInt8) : Port :=
  match register.toNat % 16 with
  | 0x1 | 0xF => { p with output := v }.refresh.latchPins
  | 0x3 => { p with direction := v }.refresh.latchPins
  | _ => p

/-- What a write makes of port B. -/
def writtenB (p : Port) (register v : UInt8) : Port :=
  match register.toNat % 16 with
  | 0x0 => { p with output := v }.refresh.latchMixed
  | 0x2 => { p with direction := v }.refresh.latchMixed
  | _ => p

theorem write_ports (via : Via) (register v : UInt8) (wires : σ) :
    (via.write register v wires).1.a = writtenA via.a register v ∧
      (via.write register v wires).1.b = writtenB via.b register v := by
  have hperipheral := via.writePeripheral_ports v wires
  have hlt : register.toNat % 16 < 16 := Nat.mod_lt _ (by omega)
  unfold write writtenA writtenB
  split
  rotate_right
  · have hlast : register.toNat % 16 = 0xF := by grind
    rw [hlast]
    exact ⟨rfl, rfl⟩
  all_goals
    next h =>
      rw [h]
      first | exact ⟨rfl, rfl⟩ | exact ⟨hperipheral.a, hperipheral.b⟩

theorem tick_ports (via : Via) (cycles : UInt32) : SamePorts via (via.tick cycles).2 := ⟨rfl, rfl⟩

/-! ### The latches -/

/-- The latches hold what the pins and the output registers make of them. -/
structure Latched (via : Via) : Prop where
  a : via.a.latch = via.a.pins
  b : via.b.latch = via.b.mixed

namespace Latched

variable {via via' : Via}

theorem new : Latched Via.new := ⟨rfl, by decide⟩

theorem of_same (h : Latched via) (hsame : SamePorts via via') : Latched via' where
  a := hsame.a ▸ h.a
  b := hsame.b ▸ h.b

theorem clear (h : Latched via) (flags : UInt8) : Latched (via.clear flags) := h.of_same ⟨rfl, rfl⟩

theorem signal (h : Latched via) (s : Signal) : Latched (via.signal s) := by
  cases s with
  | setA | setBitA | openBitA => exact ⟨rfl, h.b⟩
  | setB | setBitB | openBitB => exact ⟨h.a, rfl⟩
  | setCA1 | setCA2 | setCB1 | setCB2 => exact ⟨h.a, h.b⟩

theorem read [Signalling σ] (h : Latched via) (register : UInt8) (wires : σ) :
    Latched (via.read register wires).2.1 :=
  via.read_keeps (fun _ s h => h.signal s) register (h.clear _) wires

theorem writtenA (p : Port) (hp : p.latch = p.pins) (register v : UInt8) :
    (writtenA p register v).latch = (writtenA p register v).pins := by
  unfold Via.writtenA
  split <;> first | rfl | exact hp

theorem writtenB (p : Port) (hp : p.latch = p.mixed) (register v : UInt8) :
    (writtenB p register v).latch = (writtenB p register v).mixed := by
  unfold Via.writtenB
  split <;> first | rfl | exact hp

theorem write (h : Latched via) (register v : UInt8) (wires : σ) : Latched (via.write register v wires).1 := by
  obtain ⟨ha, hb⟩ := via.write_ports register v wires
  exact ⟨ha ▸ writtenA via.a h.a register v, hb ▸ writtenB via.b h.b register v⟩

theorem perform [Signalling σ] (h : Latched via) (o : Operation σ) : Latched (via.perform o) := by
  cases o with
  | read register wires => exact h.read register wires
  | write register v wires => exact h.write register v wires
  | signal s => exact h.signal s
  | tick cycles => exact h.of_same (via.tick_ports cycles)
  | reset => exact .new

end Latched

/-! ### What is read, told and kept -/

/-- What a write tells about the ports. -/
structure Tells (via : Via) (register v : UInt8) (told : List (Pin × Via)) : Prop where
  a : ∀ seen, (.a, seen) ∈ told → Port.Driven via.a seen.a v
  b : ∀ seen, (.b, seen) ∈ told → Port.Driven via.b seen.b v
  whenA : (∃ seen, (.a, seen) ∈ told) ↔ register.toNat % 16 = 0x1 ∨ register.toNat % 16 = 0xF
  whenB : (∃ seen, (.b, seen) ∈ told) ↔ register.toNat % 16 = 0x0

theorem read_told (via : Via) (register : UInt8) (wires : Overheard σ) :
    (via.read register wires).2.2.told = wires.told := by
  unfold read
  split <;> rfl

namespace Tells

variable {via seen : Via} {register v : UInt8} {told : List (Pin × Via)}

theorem only_a (hdriven : Port.Driven via.a seen.a v)
    (hregister : register.toNat % 16 = 0x1 ∨ register.toNat % 16 = 0xF) : Tells via register v [(.a, seen)] where
  a seen' hseen := by
    obtain ⟨-, rfl⟩ := Prod.mk.inj (List.mem_singleton.1 hseen)
    exact hdriven
  b := by simp
  whenA := by simp [hregister]
  whenB := by simp; omega

theorem only_b (hdriven : Port.Driven via.b seen.b v) (hregister : register.toNat % 16 = 0x0) :
    Tells via register v [(.b, seen)] where
  a := by simp
  b seen' hseen := by
    obtain ⟨-, rfl⟩ := Prod.mk.inj (List.mem_singleton.1 hseen)
    exact hdriven
  whenA := by simp; omega
  whenB := by simp [hregister]

theorem neither (htold : ∀ seen, (.a, seen) ∉ told ∧ (.b, seen) ∉ told)
    (hregister : register.toNat % 16 ≠ 0x0 ∧ register.toNat % 16 ≠ 0x1 ∧ register.toNat % 16 ≠ 0xF) :
    Tells via register v told where
  a seen hseen := absurd hseen (htold seen).1
  b seen hseen := absurd hseen (htold seen).2
  whenA := by simp [htold, hregister]
  whenB := by simp [htold, hregister]

end Tells

theorem writePeripheral_told (via : Via) (v : UInt8) (wires : σ) (seen : Via) :
    (.a, seen) ∉ (via.writePeripheral v (Overheard.of wires)).2.told ∧
      (.b, seen) ∉ (via.writePeripheral v (Overheard.of wires)).2.told := by
  unfold writePeripheral
  cases forcedLevel (v >>> 1) <;> cases forcedLevel (v >>> 5) <;> simp [Wiring.portOut, Overheard.of]

theorem write_tells (via : Via) (register v : UInt8) (wires : σ) :
    Tells via register v (via.write register v (Overheard.of wires)).2.told := by
  have hperipheral := via.writePeripheral_told v wires
  have hlt : register.toNat % 16 < 16 := Nat.mod_lt _ (by omega)
  unfold write
  split
  next h => exact .only_b (via.b.refresh_driven v _) h
  next h => exact .only_a (via.a.refresh_driven v _) (.inl h)
  rotate_right
  · have hlast : register.toNat % 16 = 0xF := by grind
    exact .only_a (via.a.refresh_driven v _) (.inr hlast)
  -- the other registers have nothing to tell, or tell of control lines
  all_goals
    next =>
      refine .neither ?_ (by omega)
      first | exact hperipheral | exact fun _ => ⟨List.not_mem_nil, List.not_mem_nil⟩

/-- On both ports the pins that are inputs afterwards show what they showed before. -/
structure KeepsInputs (via via' : Via) : Prop where
  a : Port.KeepsInputs via.a via'.a
  b : Port.KeepsInputs via.b via'.b

theorem write_keepsInputs (via : Via) (register v : UInt8) (wires : σ) :
    KeepsInputs via (via.write register v wires).1 := by
  obtain ⟨ha, hb⟩ := via.write_ports register v wires
  constructor
  · rw [ha]
    unfold writtenA
    split
    · exact Port.refresh_keepsInputs _
    · exact Port.refresh_keepsInputs _
    · exact Port.refresh_keepsInputs _
    · rfl
  · rw [hb]
    unfold writtenB
    split
    · exact Port.refresh_keepsInputs _
    · exact Port.refresh_keepsInputs _
    · rfl

theorem tick_keepsInputs (via : Via) (cycles : UInt32) : KeepsInputs via (via.tick cycles).2 := ⟨rfl, rfl⟩

/-- However an adapter has been used, a read of a port gives the pins as the wiring has driven them, on port B with the
output register on the output pins. A write to an output register is told with that register on the output pins, and
no write and no tick changes an input. -/
theorem ports_consistent [Signalling σ] (os : List (Operation σ)) (register : UInt8) (wires : σ) :
    let via := new.performAll os
    let read := via.read register (Overheard.of wires)
    (register.toNat % 16 = 0x0 →
      let seen := Wiring.portIn wires (via.clear (readMask (register.toNat % 16))) .b
      via.read register wires =
        (seen.1.b.pins &&& ~~~seen.1.b.direction ||| seen.1.b.output &&& seen.1.b.direction, seen)) ∧
    (register.toNat % 16 = 0x1 ∨ register.toNat % 16 = 0xF →
      let seen := Wiring.portIn wires (via.clear (readMask (register.toNat % 16))) .a
      via.read register wires = (seen.1.a.pins, seen)) ∧
    (via.read register wires = (read.1, read.2.1, read.2.2.wires) ∧ read.2.2.told = []) ∧
    (∀ v : UInt8,
      let written := via.write register v (Overheard.of wires)
      via.write register v wires = (written.1, written.2.wires) ∧ Tells via register v written.2.told ∧
        KeepsInputs via written.1) ∧
    ∀ cycles : UInt32, KeepsInputs via (via.tick cycles).2 := by
  intro via read
  have hlatched (flags : UInt8) (pin : Pin) : Latched (Wiring.portIn wires (via.clear flags) pin).1 := by
    have hvia : Latched via := performAll_keeps (fun _ o h => h.perform o) Latched.new os
    exact portIn_keeps (fun _ s h => h.signal s) (hvia.clear flags) wires pin
  refine ⟨fun hregister => ?_, fun hregister => ?_, ⟨?_, ?_⟩, fun v => ⟨?_, ?_, ?_⟩, fun cycles => ?_⟩
  · rw [via.read_portB hregister]
    dsimp only
    rw [(hlatched _ .b).b, Port.mixed, UInt8.or_comm]
  · rw [via.read_portA hregister]
    dsimp only
    rw [(hlatched _ .a).a]
  · exact Overheard.wires_hom.read (Overheard.of wires) via register
  · exact via.read_told register (Overheard.of wires)
  · exact Overheard.wires_hom.write (Overheard.of wires) via register v
  · exact via.write_tells register v wires
  · exact via.write_keepsInputs register v _
  · exact via.tick_keepsInputs cycles

/-- Half of each port an output, and inputs that the machine drives low. -/
theorem ports_consistent_halves :
    let os : List (Operation Unit) := [.write 0x3 0x0F (), .write 0x1 0xA5 (), .write 0x2 0xF0 (), .write 0x0 0x30 (),
      .signal (.setB 0x0A), .tick 5]
    let via := new.performAll os
    (via.read 0x0 ()).1 = 0x3A ∧ (via.read 0xF ()).1 = 0xF5 ∧
      Tells via 0x1 0x5A (via.write 0x1 0x5A (Overheard.of ())).2.told ∧ KeepsInputs via (via.tick 7).2 := by
  intro os via
  obtain ⟨hreadB, -, -, -, htick⟩ := ports_consistent os 0x0 ()
  obtain ⟨-, hreadA, -, -, -⟩ := ports_consistent os 0xF ()
  obtain ⟨-, -, -, hwrite, -⟩ := ports_consistent os 0x1 ()
  refine ⟨?_, ?_, (hwrite 0x5A).2.1, htick 7⟩
  · rw [hreadB rfl]
    decide
  · rw [hreadA (.inr rfl)]
    decide

end Vic20.Via
