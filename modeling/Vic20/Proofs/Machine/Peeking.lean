import Mathlib.Data.List.Induction
import Vic20.Proofs.Input.Keyboard
import Vic20.Proofs.Machine.Keeps
import Vic20.Proofs.Via.Driving

/-! Looking at the board. A read disturbs nothing but flags and pins of the adapter that it is from, and a peek gives
what a read gives, but for the ports: there it gives what is on the pins already. -/

namespace Vic20

/-! ### Pins one by one -/

namespace Via.Port

variable (p : Port)

theorem setBit_testBit {bit : UInt8} (hbit : bit.toNat < 8) (on : Bool) {i : Nat} (hi : i < 8) :
    (p.setBit bit on).pins.toNat.testBit i = if bit.toNat = i then on else p.pins.toNat.testBit i := by
  have hmask (i : Nat) : (1 <<< bit : UInt8).toNat.testBit i = decide (bit.toNat = i) := by
    rw [← Keyboard.testBit_bit hbit, Keyboard.bit, UInt8.ofNat_toNat]
  have hon : (if on then 1 <<< bit else (0 : UInt8)).toNat.testBit i = (on && decide (bit.toNat = i)) := by
    cases on with
    | true => rw [if_pos rfl, hmask, Bool.true_and]
    | false => simp
  simp only [setBit, UInt8.toNat_or, UInt8.toNat_and, Nat.testBit_or, Nat.testBit_and, hon, hmask,
    Keyboard.testBit_not _ hi]
  split_ifs with h <;> simp [h]

/-- A pin that has the level already. -/
theorem setBit_shown {bit : UInt8} (hbit : bit.toNat < 8) {on : Bool}
    (h : p.pins.toNat.testBit bit.toNat = on) : p.setBit bit on = p := by
  have hpins : (p.setBit bit on).pins = p.pins := by
    refine Keyboard.eq_of_testBit fun i hi => ?_
    rw [setBit_testBit p hbit on hi]
    split_ifs with heq
    · rw [← heq, h]
    · rfl
  exact congrArg (fun pins => { p with pins }) hpins

/-- The level of a pin that is let go. -/
def released (bit : UInt8) : Bool :=
  if p.direction &&& 1 <<< bit != 0 then p.output &&& 1 <<< bit != 0 else true

end Via.Port

namespace Board

open Via

/-! ### The joystick -/

/-- The level that a switch puts on its pin. -/
def switchLevel (j : Joystick) (p : Port) (s : Switch) (bit : UInt8) : Bool := !j.get s && p.released bit

/-- The port of the first adapter with a switch on its pin. -/
def switched (j : Joystick) (p : Port) (s : Switch) : Port :=
  match s.portBit with
  | some bit => (p.setBit bit (switchLevel j p s bit)).latchPins
  | none => p

theorem driveSwitch_eq (j : Joystick) (via : Via) (s : Switch) :
    driveSwitch j via s = { via with a := switched j via.a s } := by
  unfold driveSwitch switched switchLevel
  cases s.portBit with
  | none => rfl
  | some bit =>
    cases hclosed : j.get s with
    | true => rfl
    | false => rfl

theorem driveSwitches_eq (j : Joystick) (via : Via) (switches : List Switch) :
    switches.foldl (driveSwitch j) via = { via with a := switches.foldl (switched j) via.a } := by
  induction switches generalizing via with
  | nil => rfl
  | cons s switches ih => rw [List.foldl_cons, ih, driveSwitch_eq, List.foldl_cons]

/-- A switch shows on its pin. -/
def Shows (j : Joystick) (p : Port) (s : Switch) : Prop :=
  ∀ bit, s.portBit = some bit → p.pins.toNat.testBit bit.toNat = switchLevel j p s bit

/-- The same pins are outputs, and the output registers are the same. -/
structure SameOutputs (p q : Port) : Prop where
  direction : q.direction = p.direction
  output : q.output = p.output

theorem SameOutputs.switchLevel {p q : Port} (h : SameOutputs p q) (j : Joystick) (s : Switch) (bit : UInt8) :
    switchLevel j q s bit = switchLevel j p s bit := by
  unfold Board.switchLevel Port.released
  rw [h.direction, h.output]

theorem switched_outputs (j : Joystick) (p : Port) (s : Switch) : SameOutputs p (switched j p s) := by
  unfold switched
  cases s.portBit <;> exact ⟨rfl, rfl⟩

theorem portBit_lt {s : Switch} {bit : UInt8} (h : s.portBit = some bit) : bit.toNat < 8 := by
  cases s <;> cases h <;> decide

theorem portBit_inj {s t : Switch} {bit bit' : UInt8} (h : s.portBit = some bit) (h' : t.portBit = some bit')
    (heq : bit.toNat = bit'.toNat) : s = t := by
  cases s <;> cases h <;> cases t <;> cases h' <;> first | rfl | exact absurd heq (by decide)

theorem switched_shows (j : Joystick) (p : Port) (s : Switch) : Shows j (switched j p s) s := by
  intro bit hbit
  rw [(switched_outputs j p s).switchLevel, switched, hbit]
  exact (p.setBit_testBit (portBit_lt hbit) _ (portBit_lt hbit)).trans (if_pos rfl)

/-- The pins of other switches stay as they are. -/
theorem Shows.switched {j : Joystick} {p : Port} {s t : Switch} (h : Shows j p t) (hne : s ≠ t) :
    Shows j (switched j p s) t := by
  intro bit hbit
  rw [(switched_outputs j p s).switchLevel, ← h bit hbit, Board.switched]
  cases hs : s.portBit with
  | none => rfl
  | some bit' =>
    refine (p.setBit_testBit (portBit_lt hs) _ (portBit_lt hbit)).trans (if_neg fun heq => ?_)
    exact hne (portBit_inj hs hbit heq)

/-- A switch that shows already changes nothing. -/
theorem switched_shown {j : Joystick} {p : Port} {s : Switch} (h : Shows j p s) (hlatch : p.latch = p.pins) :
    switched j p s = p := by
  unfold switched
  cases hbit : s.portBit with
  | none => rfl
  | some bit =>
    dsimp only
    rw [p.setBit_shown (portBit_lt hbit) (h bit hbit)]
    exact congrArg (fun latch => { p with latch }) hlatch.symm

/-- What all switches have done to a port. -/
structure Switched (j : Joystick) (p q : Port) (switches : List Switch) : Prop extends SameOutputs p q where
  latch : q.latch = q.pins
  shows : ∀ s ∈ switches, Shows j q s

theorem switched_all (j : Joystick) (p : Port) (hlatch : p.latch = p.pins) (switches : List Switch) :
    Switched j p (switches.foldl (switched j) p) switches := by
  induction switches using List.reverseRecOn with
  | nil => exact ⟨⟨rfl, rfl⟩, hlatch, by simp⟩
  | append_singleton switches s ih =>
    rw [List.foldl_append, List.foldl_cons, List.foldl_nil]
    generalize switches.foldl (switched j) p = q at ih
    have houtputs := switched_outputs j q s
    refine ⟨⟨houtputs.direction.trans ih.direction, houtputs.output.trans ih.output⟩, ?_, fun t ht => ?_⟩
    · unfold switched
      cases s.portBit with
      | none => exact ih.latch
      | some bit => rfl
    · by_cases hst : s = t
      · exact hst ▸ switched_shows j q s
      · have hmem : t ∈ switches := by simpa [Ne.symm hst] using ht
        exact (ih.shows t hmem).switched hst

/-- Switches set the pins, which the latch follows, and nothing else. -/
theorem Switched.eq {j : Joystick} {p q : Port} {switches : List Switch} (h : Switched j p q switches) :
    { p with pins := q.pins }.latchPins = q := by
  obtain ⟨pins, latch, output, direction⟩ := q
  simp only [Port.latchPins, Port.mk.injEq]
  exact ⟨trivial, h.latch.symm, h.output.symm, h.direction.symm⟩

/-- Once all switches show, they change nothing more. -/
theorem foldl_switched_shown {j : Joystick} {p : Port} (hlatch : p.latch = p.pins) {switches : List Switch}
    (h : ∀ s ∈ switches, Shows j p s) : switches.foldl (switched j) p = p := by
  induction switches with
  | nil => rfl
  | cons s switches ih =>
    obtain ⟨hs, hswitches⟩ := List.forall_mem_cons.1 h
    rw [List.foldl_cons, switched_shown hs hlatch]
    exact ih hswitches

variable {σ : Type}

instance : Driving (Wires1 σ) where
  levelsA w p := (Switch.all.foldl (switched w.joystick) p.latchPins).pins
  levelsB _ p := p.pins
  drivesA w via h := by
    have hswitched := switched_all w.joystick via.a.latchPins rfl Switch.all
    have ha : via.a.latchPins = via.a := congrArg (fun latch => { via.a with latch }) h.a.symm
    rw [ha] at hswitched ⊢
    exact congrArg (·, w) ((driveSwitches_eq _ _ _).trans (congrArg (fun a => { via with a }) hswitched.eq.symm))
  drivesB w _ h := congrArg (·, w) h.setB_pins.symm
  steadyA w p := by
    have hswitched := switched_all w.joystick p.latchPins rfl Switch.all
    generalize Switch.all.foldl (switched w.joystick) p.latchPins = q at hswitched
    have hq : ({ p with pins := q.pins } : Port).latchPins.latchPins = q := hswitched.eq
    rw [hq, foldl_switched_shown hswitched.latch hswitched.shows]
  steadyB _ _ := rfl

instance : Driving (Wires2 σ) where
  levelsA w _ := w.keyboard.rowStatus
  levelsB w p :=
    if w.joystick.right then (({ p with pins := w.keyboard.columnStatus } : Port).setBit rightBit false).pins
    else w.keyboard.columnStatus
  drivesA _ _ _ := rfl
  drivesB w via _ := by
    obtain ⟨keyboard, ⟨up, down, left, right, fire⟩, drive⟩ := w
    cases right <;> rfl
  steadyA _ _ := rfl
  steadyB _ _ := rfl

/-! ### Decoding -/

/-- The first adapter is selected. -/
def Selects1 (address : UInt16) : Prop := 0x9100 ≤ address ∧ address < 0x9400 ∧ address &&& 0x10 ≠ 0

/-- The second adapter is selected. -/
def Selects2 (address : UInt16) : Prop :=
  0x9100 ≤ address ∧ address < 0x9400 ∧ address &&& 0x10 = 0 ∧ address &&& 0x20 ≠ 0

theorem chip_via1 (address : UInt16) : Chip.ofAddress address = .via1 ↔ Selects1 address := by
  unfold Chip.ofAddress Selects1
  simp only [UInt16.lt_iff_toNat_lt, UInt16.le_iff_toNat_le, UInt16.reduceToNat]
  split_ifs <;> grind

theorem chip_via2 (address : UInt16) : Chip.ofAddress address = .via2 ↔ Selects2 address := by
  unfold Chip.ofAddress Selects2
  simp only [UInt16.lt_iff_toNat_lt, UInt16.le_iff_toNat_le, UInt16.reduceToNat]
  split_ifs <;> grind

/-- The address is that of the data of a port. -/
def IsPortData (address : UInt16) : Prop :=
  (Selects1 address ∨ Selects2 address) ∧ PortData (registerOf address)

variable (b : Board σ) {address : UInt16}

/-- The adapter that is selected. -/
def adapter (address : UInt16) : Via := if address &&& 0x10 ≠ 0 then b.via1 else b.via2

theorem read_via1 (h : Chip.ofAddress address = .via1) (hlatched : b.via1.Latched) :
    let r := b.via1.read (registerOf address) (Wires1.mk b.joystick b.drive)
    b.read address = (r.1, { b with via1 := r.2.1 }) := by
  obtain ⟨memory, vic, via1, via2, keyboard, joystick, drive⟩ := b
  have hwires := (read_repinned (registerOf address) (Wires1.mk joystick drive) hlatched).2
  unfold read
  simp only [h, hwires]

theorem read_via2 (h : Chip.ofAddress address = .via2) (hlatched : b.via2.Latched) :
    let r := b.via2.read (registerOf address) (Wires2.mk b.keyboard b.joystick b.drive)
    b.read address = (r.1, { b with via2 := r.2.1 }) := by
  obtain ⟨memory, vic, via1, via2, keyboard, joystick, drive⟩ := b
  have hwires := (read_repinned (registerOf address) (Wires2.mk keyboard joystick drive) hlatched).2
  unfold read
  simp only [h, hwires]

/-- Elsewhere a read changes nothing. -/
theorem read_elsewhere (h : ¬Selects1 address) (h' : ¬Selects2 address) :
    b.read address = (b.peek address, b) := by
  rw [← chip_via1] at h
  rw [← chip_via2] at h'
  unfold read peek
  cases hchip : Chip.ofAddress address with
  | memory | vic => rfl
  | via1 => exact absurd hchip h
  | via2 => exact absurd hchip h'

/-! ### Reachable boards -/

/-- Boards as they are made and used. An adapter is read, written, ticked and signalled to; all other parts can be in
any state. -/
inductive Reachable : Board σ → Prop
  | new (memory : Memory) (drive : Drive σ) : Reachable { memory, drive }
  | beside {b : Board σ} (h : Reachable b) (memory : Memory) (vic : Vic) (keyboard : Keyboard) (joystick : Joystick)
    (drive : Drive σ) : Reachable { b with memory, vic, keyboard, joystick, drive }
  | read {b : Board σ} (h : Reachable b) (address : UInt16) : Reachable (b.read address).2
  | write {b : Board σ} (h : Reachable b) (address : UInt16) (v : UInt8) : Reachable (b.write address v)
  | tickVia1 {b : Board σ} (h : Reachable b) (cycles : Nat) : Reachable (b.tickVia1 cycles).2
  | tickVia2 {b : Board σ} (h : Reachable b) (cycles : Nat) : Reachable (b.tickVia2 cycles).2
  | signal1 {b : Board σ} (h : Reachable b) (s : Signal) : Reachable { b with via1 := b.via1.signal s }
  | signal2 {b : Board σ} (h : Reachable b) (s : Signal) : Reachable { b with via2 := b.via2.signal s }
  | reset1 {b : Board σ} (h : Reachable b) : Reachable { b with via1 := .new }
  | reset2 {b : Board σ} (h : Reachable b) : Reachable { b with via2 := .new }

theorem Reachable.syncSerial {b : Board σ} (h : Reachable b) : Reachable b.syncSerial :=
  (h.signal1 (.setBitA clkBit !b.drive.clkOut)).signal1 (.setBitA dataBit !b.drive.dataOut)

theorem Reachable.reset {b : Board σ} (h : Reachable b) : Reachable b.reset :=
  (((h.reset1.reset2.beside b.memory b.vic.reset .new {} b.drive.reset).signal1 (.setCA1 true))).syncSerial

/-- A machine that runs stays among reachable boards. -/
theorem reachable_keeps [Storage σ] : Board.Keeps (Reachable : Board σ → Prop) where
  read h address := h.read address
  write h address v := h.write address v
  tickVia1 h cycles := h.tickVia1 cycles
  tickVia2 h cycles := h.tickVia2 cycles
  tickVic {b} h cycles := h.beside b.memory (b.vic.tick b.memory cycles) b.keyboard b.joystick b.drive
  tickDrive {b} h cycles :=
    h.beside b.memory b.vic b.keyboard b.joystick (if b.drive.active then b.drive.tick cycles else b.drive)
  syncSerial h := h.syncSerial
  takeJournal {b} h := h.beside b.memory b.vic b.keyboard b.joystick b.drive.takeJournal.2

/-- The latches of both adapters follow their pins. -/
structure Latched (b : Board σ) : Prop where
  via1 : b.via1.Latched
  via2 : b.via2.Latched

variable {b} {v : UInt8}

theorem Latched.read (h : Latched b) (address : UInt16) : Latched (b.read address).2 := by
  by_cases h₁ : Selects1 address
  · rw [read_via1 b ((chip_via1 address).2 h₁) h.via1]
    exact ⟨h.via1.read _ _, h.via2⟩
  by_cases h₂ : Selects2 address
  · rw [read_via2 b ((chip_via2 address).2 h₂) h.via2]
    exact ⟨h.via1, h.via2.read _ _⟩
  rw [read_elsewhere b h₁ h₂]
  exact h

theorem Latched.write (h : Latched b) (address : UInt16) (v : UInt8) : Latched (b.write address v) := by
  obtain ⟨memory, vic, via1, via2, keyboard, joystick, drive⟩ := b
  unfold Board.write
  cases Chip.ofAddress address with
  | memory | vic => exact ⟨h.via1, h.via2⟩
  | via1 => exact ⟨h.via1.write _ _ _, h.via2⟩
  | via2 => exact ⟨h.via1, h.via2.write _ _ _⟩

theorem Reachable.latched (h : Reachable b) : Latched b := by
  induction h with
  | new memory drive => exact ⟨.new, .new⟩
  | beside _ _ _ _ _ _ ih => exact ⟨ih.via1, ih.via2⟩
  | read _ address ih => exact ih.read address
  | write _ address v ih => exact ih.write address v
  | tickVia1 _ cycles ih => exact ⟨ih.via1.of_same (tick_ports _ _), ih.via2⟩
  | tickVia2 _ cycles ih => exact ⟨ih.via1, ih.via2.of_same (tick_ports _ _)⟩
  | signal1 _ s ih => exact ⟨ih.via1.signal s, ih.via2⟩
  | signal2 _ s ih => exact ⟨ih.via1, ih.via2.signal s⟩
  | reset1 _ ih => exact ⟨.new, ih.via2⟩
  | reset2 _ ih => exact ⟨ih.via1, .new⟩

/-! ### Looking and reading -/

theorem peek_via1 (h : Selects1 address) : b.peek address = (b.via1.read (registerOf address) ()).1 := by
  rw [peek, (chip_via1 address).2 h]

theorem peek_via2 (h : Selects2 address) : b.peek address = (b.via2.read (registerOf address) ()).1 := by
  rw [peek, (chip_via2 address).2 h]

/-- Away from the ports a peek gives what a read gives. -/
theorem peek_eq_read (h : Latched b) (hport : ¬IsPortData address) : b.peek address = (b.read address).1 := by
  by_cases h₁ : Selects1 address
  · have hregister : ¬PortData (registerOf address) := fun hdata => hport ⟨.inl h₁, hdata⟩
    rw [peek_via1 h₁, read_via1 b ((chip_via1 address).2 h₁) h.via1]
    exact (read_value hregister b.via1 () _).1
  by_cases h₂ : Selects2 address
  · have hregister : ¬PortData (registerOf address) := fun hdata => hport ⟨.inr h₂, hdata⟩
    rw [peek_via2 h₂, read_via2 b ((chip_via2 address).2 h₂) h.via2]
    exact (read_value hregister b.via2 () _).1
  rw [read_elsewhere b h₁ h₂]

/-- A wiring that drives nothing. -/
def Silent (τ : Type) [Wiring τ] : Prop := ∀ (wires : τ) via pin, Wiring.portIn wires via pin = (via, wires)

theorem read_silent {τ : Type} [Wiring τ] (h : Silent τ) (via : Via) (register : UInt8) (wires : τ) :
    (via.read register wires).1 = (via.read register ()).1 := by
  by_cases hb : register.toNat % 16 = 0x0
  · rw [via.read_portB hb, via.read_portB hb, h]
    rfl
  by_cases ha : register.toNat % 16 = 0x1 ∨ register.toNat % 16 = 0xF
  · rw [via.read_portA ha, via.read_portA ha, h]
    rfl
  exact (read_value (not_or.2 ⟨hb, ha⟩) via wires ()).1

/-- A peek at the data of a port. -/
theorem peek_port (hport : IsPortData address) :
    b.peek address = ((b.adapter address).read (registerOf address) ()).1 := by
  obtain ⟨h | h, -⟩ := hport
  · rw [peek_via1 h, adapter, if_pos h.2.2]
  · rw [peek_via2 h, adapter, if_neg (not_not.2 h.2.2.1)]

theorem Latched.adapter (h : Latched b) (address : UInt16) : (b.adapter address).Latched := by
  unfold Board.adapter
  split_ifs
  · exact h.via1
  · exact h.via2

/-- What a read leaves as it was: all but the adapters, either adapter unless it is selected, and all of a selected one
but flags and pins. A second read finds what the first has found and changes nothing more. -/
structure Undisturbed (b : Board σ) (address : UInt16) : Prop where
  outside : address < 0x9100 ∨ 0x9400 ≤ address → (b.read address).2 = b
  others : (b.read address).2 = { b with via1 := (b.read address).2.via1, via2 := (b.read address).2.via2 }
  unselected1 : ¬Selects1 address → (b.read address).2.via1 = b.via1
  unselected2 : ¬Selects2 address → (b.read address).2.via2 = b.via2
  via1 : Repinned b.via1 (b.read address).2.via1
  via2 : Repinned b.via2 (b.read address).2.via2
  again : (b.read address).2.read address = b.read address

theorem Undisturbed.of_eq {via1 via2 : Via} (hstate : (b.read address).2 = { b with via1, via2 })
    (h₁ : Repinned b.via1 via1) (h₂ : Repinned b.via2 via2) (hsame₁ : ¬Selects1 address → via1 = b.via1)
    (hsame₂ : ¬Selects2 address → via2 = b.via2)
    (hagain : ({ b with via1, via2 } : Board σ).read address = b.read address) : Undisturbed b address where
  outside hout := by
    have hnot : ¬Selects1 address ∧ ¬Selects2 address := by
      simp only [Selects1, Selects2, UInt16.lt_iff_toNat_lt, UInt16.le_iff_toNat_le] at hout ⊢
      grind
    rw [hstate, hsame₁ hnot.1, hsame₂ hnot.2]
  others := by rw [hstate]
  unselected1 h := by rw [hstate, hsame₁ h]
  unselected2 h := by rw [hstate, hsame₂ h]
  via1 := by rw [hstate]; exact h₁
  via2 := by rw [hstate]; exact h₂
  again := by rw [hstate]; exact hagain

theorem undisturbed (h : Latched b) (address : UInt16) : Undisturbed b address := by
  have hsame {via : Via} (h : via.Latched) : Repinned via via := via.clear_none ▸ Repinned.clear h 0
  by_cases h₁ : Selects1 address
  · have hchip := (chip_via1 address).2 h₁
    have hread := read_via1 b hchip h.via1
    have hrepinned := (read_repinned (registerOf address) (Wires1.mk b.joystick b.drive) h.via1).1
    refine .of_eq (congrArg Prod.snd hread) hrepinned (hsame h.via2) (absurd h₁) (fun _ => rfl) ?_
    rw [read_via1 _ hchip (h.via1.read _ _), read_again _ _ h.via1, hread]
  by_cases h₂ : Selects2 address
  · have hchip := (chip_via2 address).2 h₂
    have hread := read_via2 b hchip h.via2
    have hrepinned := (read_repinned (registerOf address) (Wires2.mk b.keyboard b.joystick b.drive) h.via2).1
    refine .of_eq (congrArg Prod.snd hread) (hsame h.via1) hrepinned (fun _ => rfl) (absurd h₂) ?_
    rw [read_via2 _ hchip (h.via2.read _ _), read_again _ _ h.via2, hread]
  · have hstate := congrArg Prod.snd (read_elsewhere b h₁ h₂)
    exact .of_eq hstate (hsame h.via1) (hsame h.via2) (fun _ => rfl) (fun _ => rfl) rfl

/-- A peek gives what a read gives, and at the data of a port what a read would give with nothing on the pins. A read
disturbs nothing but flags and pins of the adapter that it is from. -/
theorem peek_agrees (h : Reachable b) (address : UInt16) :
    (¬IsPortData address → b.peek address = (b.read address).1) ∧
    (IsPortData address →
      b.peek address = (b.adapter address).undriven (registerOf address) ∧
      ∀ {τ : Type} [Wiring τ] (wires : τ), Silent τ →
        b.peek address = ((b.adapter address).read (registerOf address) wires).1) ∧
    Undisturbed b address := by
  refine ⟨peek_eq_read h.latched, fun hport => ⟨?_, fun wires hsilent => ?_⟩, undisturbed h.latched address⟩
  · rw [peek_port hport, read_undriven (h.latched.adapter address) hport.2]
  · rw [peek_port hport, read_silent hsilent]

/-- A board in the midst of a scan, with a key pressed in row 1 and column 2 and timer one of the second adapter
running. -/
def scanning : Board Unit :=
  let idle : Board Unit := { memory := .new ⟨.zero _, .zero _, .zero _⟩, drive := { device := 8 } }
  (({ idle with keyboard := Keyboard.new.set 1 2 true }.write 0x9122 0xFF).write 0x9120 0xFB).write 0x9125 0x12

theorem peek_agrees_scanning :
    Reachable scanning ∧ ¬IsPortData 0x9125 ∧ scanning.peek 0x9125 = (scanning.read 0x9125).1 ∧
      IsPortData 0x9121 ∧ Silent Unit ∧ scanning.peek 0x9121 = 0xFF ∧ (scanning.read 0x9121).1 = 0xFD ∧
      scanning.peek 0x9121 = ((scanning.adapter 0x9121).read (registerOf 0x9121) ()).1 ∧
      Undisturbed scanning 0x9121 := by
  have hreachable : Reachable scanning :=
    ((((Reachable.new _ _).beside _ _ _ _ _).write 0x9122 0xFF).write 0x9120 0xFB).write 0x9125 0x12
  have hport : IsPortData 0x9121 := ⟨.inr ⟨by decide, by decide, by decide, by decide⟩, .inr (.inl rfl)⟩
  have htimer : ¬IsPortData 0x9125 := fun h => by
    have hdata : PortData (registerOf 0x9125) := h.2
    revert hdata
    unfold PortData
    decide
  obtain ⟨hread, -, -⟩ := peek_agrees hreachable 0x9125
  obtain ⟨-, hpeek, hundisturbed⟩ := peek_agrees hreachable 0x9121
  have hsilent : Silent Unit := fun _ _ _ => rfl
  exact ⟨hreachable, htimer, hread htimer, hport, hsilent, (hpeek hport).1, rfl, (hpeek hport).2 () hsilent,
    hundisturbed⟩

end Board
end Vic20
