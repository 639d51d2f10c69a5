import Vic20.Machine.Board
import Vic20.Proofs.Input.Keyboard
import Vic20.Proofs.Via.Ports

/-! Scans of the keyboard through the second adapter. A program drives one side of the matrix from one port and reads
the other side from the other port. What it reads tells which keys are pressed, whatever has been scanned before. -/

namespace Vic20

namespace Via.Port

variable {p : Port}

/-- A port of outputs shows its output register, and a port of inputs its pins. -/
theorem mixed_output (h : p.direction = 0xFF) : p.mixed = p.output := by
  rw [mixed, h, show (0xFF : UInt8) = -1 from rfl]
  simp

theorem mixed_input (h : p.direction = 0) : p.mixed = p.pins := by
  rw [mixed, h]
  simp

end Via.Port

namespace Board

variable {σ : Type} (b : Board σ) (v : UInt8)

/-! ### Accesses to the ports -/

/-- Port B selects columns when it is written. -/
theorem write_portB (h : b.via2.b.direction = 0xFF) :
    (b.write 0x9120 v).keyboard = b.keyboard.selectColumns v := by
  obtain ⟨memory, vic, via1, via2, keyboard, joystick, drive⟩ := b
  have hmixed : ({ via2.b with output := v } : Via.Port).mixed = v := Via.Port.mixed_output h
  exact congrArg keyboard.selectColumns hmixed

/-- The addresses of port A. -/
def portA : List UInt16 := [0x9121, 0x912F]

theorem write_portA (h : b.via2.a.direction = 0xFF) {address : UInt16} (ha : address ∈ portA) :
    (b.write address v).keyboard = b.keyboard.selectRows v ∧ (b.write address v).joystick = b.joystick ∧
      (b.write address v).via2.b.direction = b.via2.b.direction := by
  obtain ⟨memory, vic, via1, via2, keyboard, joystick, drive⟩ := b
  have hmixed : ({ via2.a with output := v } : Via.Port).mixed = v := Via.Port.mixed_output h
  simp only [portA, List.mem_cons, List.not_mem_nil, or_false] at ha
  obtain rfl | rfl := ha
  · exact ⟨congrArg keyboard.selectRows hmixed, rfl, rfl⟩
  · exact ⟨congrArg keyboard.selectRows hmixed, rfl, rfl⟩

theorem read_portA {address : UInt16} (ha : address ∈ portA) : (b.read address).1 = b.keyboard.rowStatus := by
  obtain ⟨memory, vic, via1, via2, keyboard, joystick, drive⟩ := b
  simp only [portA, List.mem_cons, List.not_mem_nil, or_false] at ha
  obtain rfl | rfl := ha <;> rfl

theorem read_portB (h : b.via2.b.direction = 0) :
    (b.read 0x9120).1 =
      if b.joystick.right then b.keyboard.columnStatus &&& ~~~0x80 else b.keyboard.columnStatus := by
  obtain ⟨memory, vic, via1, via2, keyboard, ⟨up, down, left, right, fire⟩, drive⟩ := b
  have hmixed (pins latch : UInt8) : ({ via2.b with pins, latch } : Via.Port).mixed = pins :=
    Via.Port.mixed_input h
  cases right with
  | false => exact hmixed keyboard.columnStatus via2.b.latch
  | true =>
    have hlow : keyboard.columnStatus &&& ~~~(1 <<< rightBit) ||| 0 = keyboard.columnStatus &&& ~~~0x80 := by
      rw [UInt8.or_zero]
      rfl
    exact (hmixed _ _).trans hlow

/-! ### Scans -/

/-- What is read from port A once port B has been written. -/
def scanRows (address : UInt16) : UInt8 := ((b.write 0x9120 v).read address).1

/-- What is read from port B once port A has been written. -/
def scanColumns (address : UInt16) : UInt8 := ((b.write address v).read 0x9120).1

variable {b v} {address : UInt16}

theorem scanRows_testBit (h : b.via2.b.direction = 0xFF) (ha : address ∈ portA) {r : Nat} (hr : r < 8) :
    (b.scanRows v address).toNat.testBit r = false ↔
      ∃ c < 8, v.toNat.testBit c = false ∧ b.keyboard.isPressed r c = true := by
  rw [scanRows, read_portA _ ha, write_portB b v h]
  exact b.keyboard.selectColumns_testBit v hr

theorem scanColumns_testBit (h : b.via2.a.direction = 0xFF) (h' : b.via2.b.direction = 0) (ha : address ∈ portA)
    {c : Nat} (hc : c < 8) : (b.scanColumns v address).toNat.testBit c = false ↔
      (∃ r < 8, v.toNat.testBit r = false ∧ b.keyboard.isPressed r c = true) ∨ c = 7 ∧ b.joystick.right = true := by
  obtain ⟨hkeyboard, hjoystick, hdirection⟩ := write_portA b v h ha
  have hkeys := b.keyboard.selectRows_testBit v hc
  rw [scanColumns, read_portB _ (hdirection.trans h'), hkeyboard, hjoystick]
  cases b.joystick.right with
  | false => simpa using hkeys
  | true =>
    have htop : (~~~(0x80 : UInt8)).toNat.testBit c = !decide (7 = c) := by
      rw [Keyboard.testBit_not _ hc]
      exact congrArg not (Keyboard.testBit_bit (show 7 < 8 by decide) c)
    rw [if_pos rfl, UInt8.toNat_and, Nat.testBit_and, htop, Bool.and_eq_false_iff, hkeys, Bool.not_eq_false',
      decide_eq_true_eq, @eq_comm _ 7 c, eq_self, and_true]

/-- The same keys are pressed on two boards, and the switch that is seen with them is in the same position. -/
structure SameKeys (b b' : Board σ) : Prop where
  keys : ∀ r < 8, ∀ c < 8, b.keyboard.isPressed r c = b'.keyboard.isPressed r c
  right : b.joystick.right = b'.joystick.right

variable {b' : Board σ}

theorem SameKeys.scanRows (hkeys : SameKeys b b') (h : b.via2.b.direction = 0xFF) (h' : b'.via2.b.direction = 0xFF)
    (ha : address ∈ portA) (v : UInt8) : b.scanRows v address = b'.scanRows v address := by
  refine Keyboard.eq_of_testBit fun r hr => ?_
  rw [scanRows_testBit h ha hr, scanRows_testBit h' ha hr]
  refine exists_congr fun c => and_congr_right fun hc => ?_
  rw [hkeys.keys r hr c hc]

theorem SameKeys.scanColumns (hkeys : SameKeys b b') (ha : b.via2.a.direction = 0xFF) (hb : b.via2.b.direction = 0)
    (ha' : b'.via2.a.direction = 0xFF) (hb' : b'.via2.b.direction = 0) (haddress : address ∈ portA) (v : UInt8) :
    b.scanColumns v address = b'.scanColumns v address := by
  refine Keyboard.eq_of_testBit fun c hc => ?_
  rw [scanColumns_testBit ha hb haddress hc, scanColumns_testBit ha' hb' haddress hc, hkeys.right]
  refine or_congr_left (exists_congr fun r => and_congr_right fun hr => ?_)
  rw [hkeys.keys r hr c hc]

/-- Scans see the keys that are pressed, from either side of the matrix, and nothing else but the switch of the
joystick that pulls the top pin of port B. Earlier scans, levels and latches do not show. -/
theorem keyboard_scanned (b : Board σ) (v : UInt8) (address : UInt16) (ha : address ∈ portA) :
    (b.via2.b.direction = 0xFF → b.via2.a.direction = 0 →
      (∀ r < 8, ((b.scanRows v address).toNat.testBit r = false ↔
        ∃ c < 8, v.toNat.testBit c = false ∧ b.keyboard.isPressed r c = true)) ∧
      ∀ b' : Board σ, SameKeys b b' → b'.via2.b.direction = 0xFF → b'.via2.a.direction = 0 →
        b'.scanRows v address = b.scanRows v address) ∧
    (b.via2.a.direction = 0xFF → b.via2.b.direction = 0 →
      (∀ c < 8, ((b.scanColumns v address).toNat.testBit c = false ↔
        (∃ r < 8, v.toNat.testBit r = false ∧ b.keyboard.isPressed r c = true) ∨
          c = 7 ∧ b.joystick.right = true)) ∧
      ∀ b' : Board σ, SameKeys b b' → b'.via2.a.direction = 0xFF → b'.via2.b.direction = 0 →
        b'.scanColumns v address = b.scanColumns v address) := by
  constructor
  · intro hb _
    exact ⟨fun r hr => scanRows_testBit hb ha hr, fun b' hkeys hb' _ => (hkeys.scanRows hb hb' ha v).symm⟩
  · intro hdirection hb
    exact ⟨fun c hc => scanColumns_testBit hdirection hb ha hc,
      fun b' hkeys ha' hb' => (hkeys.scanColumns hdirection hb ha' hb' ha v).symm⟩

/-- A board with a key pressed in row 1 and column 2, the joystick to the right, and marks of earlier work. -/
def held (a b : UInt8) : Board Unit where
  memory := .new ⟨.zero _, .zero _, .zero _⟩
  via2 := {
    a := { pins := 0x5A, latch := 0x13, output := 0x77, direction := a }
    b := { pins := 0x21, latch := 0x84, direction := b } }
  keyboard := (Keyboard.new.set 1 2 true).selectRows 0xFD
  joystick := { right := true }
  drive := { device := 8 }

/-- A board at rest with the same keys. -/
def heldAtRest : Board Unit where
  memory := .new ⟨.zero _, .zero _, .zero _⟩
  via2 := { Via.new with b := { direction := 0xFF } }
  keyboard := Keyboard.new.set 1 2 true
  joystick := { right := true, fire := true }
  drive := { device := 8 }

theorem keyboard_scanned_held :
    0x912F ∈ portA ∧ SameKeys (held 0 0xFF) heldAtRest ∧
      ((held 0 0xFF).scanRows 0xFB 0x912F).toNat.testBit 1 = false ∧
      ((held 0 0xFF).scanRows 0xFD 0x912F).toNat.testBit 1 = true ∧
      heldAtRest.scanRows 0xFB 0x912F = (held 0 0xFF).scanRows 0xFB 0x912F ∧
      ((held 0xFF 0).scanColumns 0xFD 0x912F).toNat.testBit 2 = false ∧
      ((held 0xFF 0).scanColumns 0xFF 0x912F).toNat.testBit 2 = true ∧
      ((held 0xFF 0).scanColumns 0xFF 0x912F).toNat.testBit 7 = false := by
  have hkeys : SameKeys (held 0 0xFF) heldAtRest := ⟨by decide, rfl⟩
  have hrows (v : UInt8) := (keyboard_scanned (held 0 0xFF) v 0x912F (by decide)).1 rfl rfl
  have hcolumns (v : UInt8) := ((keyboard_scanned (held 0xFF 0) v 0x912F (by decide)).2 rfl rfl).1
  refine ⟨by decide, hkeys, ?_, ?_, (hrows 0xFB).2 heldAtRest hkeys rfl rfl, ?_, ?_, ?_⟩
  · exact ((hrows 0xFB).1 1 (by decide)).2 ⟨2, by decide⟩
  · rw [← Bool.not_eq_false, (hrows 0xFD).1 1 (by decide)]
    decide
  · exact (hcolumns 0xFD 2 (by decide)).2 (.inl ⟨1, by decide⟩)
  · rw [← Bool.not_eq_false, hcolumns 0xFF 2 (by decide)]
    decide
  · exact (hcolumns 0xFF 7 (by decide)).2 (.inr ⟨rfl, rfl⟩)

end Board
end Vic20
