import Vic20.Machine.Media
import Vic20.Proofs.Cpu.Hom
import Vic20.Proofs.Drive.Logged
import Vic20.Proofs.Machine.Trace
import Vic20.Proofs.Via.Wiring
import Vic20.Proofs.Video.Drawing

/-! Twins are machines that nothing tells apart but pictures, counts since power-on and journals. They are equal
in all that a register, the bus or a line can come to show. Whatever happens to one of them does the same to the
other, and leaves them twins. -/

namespace Vic20

namespace Vic

open Video

variable {v w : Vic}

/-- The geometry without the right edge and the height of the character area, which only drawing reads. -/
def placement (g : Geometry) : Geometry := { g with right := 0, areaHeight := 0 }

/-- Equal registers, beam and placement. Ink, the text line and the picture bear on pictures alone. -/
structure Twin (v w : Vic) : Prop where
  registers : v.registers = w.registers
  beam : v.beam = w.beam
  frameDone : v.frameDone = w.frameDone
  geometry : placement v.geometry = placement w.geometry

theorem Twin.stored (h : Twin v w) (register : UInt8) : v.stored register = w.stored register := by
  rw [Vic.stored, Vic.stored, h.registers]

theorem Twin.read (h : Twin v w) (register : UInt8) : v.read register = w.read register := by
  simp only [Vic.read, h.stored, h.beam]

theorem Twin.derive (h : Twin v w) (register : Nat) (x : UInt8) :
    Twin (v.derive register x) (w.derive register x) := by
  have hmatrix : Geometry.matrixAddress (v.stored 2) (v.stored 5) =
      Geometry.matrixAddress (w.stored 2) (w.stored 5) := by
    rw [h.stored, h.stored]
  -- What a register sets follows from the placement before.
  have hset (f : Geometry → Geometry) (hf : ∀ g, placement (f g) = placement (f (placement g))) :
      placement (f v.geometry) = placement (f w.geometry) := by
    rw [hf, h.geometry, ← hf]
  unfold Vic.derive
  split
  · exact ⟨h.registers, h.beam, h.frameDone, hset (·.setLeft x) fun _ => rfl⟩
  · exact ⟨h.registers, h.beam, h.frameDone, hset (·.setTop x) fun _ => rfl⟩
  · refine ⟨h.registers, h.beam, h.frameDone, ?_⟩
    unfold updateMatrix
    rw [hmatrix]
    exact hset (fun g => ({ g with matrix := _ } : Geometry).setColumns x) fun _ => rfl
  · exact ⟨h.registers, h.beam, h.frameDone, hset (·.setRows x) fun _ => rfl⟩
  · refine ⟨h.registers, h.beam, h.frameDone, ?_⟩
    unfold updateMatrix
    rw [hmatrix]
    exact hset (fun g => { g.setGlyphs x with matrix := _ }) fun _ => rfl
  all_goals exact ⟨h.registers, h.beam, h.frameDone, h.geometry⟩

theorem Twin.write (h : Twin v w) (register x : UInt8) : Twin (v.write register x) (w.write register x) := by
  unfold Vic.write
  rw [h.stored]
  split
  · exact h
  · refine Twin.derive ?_ _ x
    exact ⟨congrArg (·.set _ x (register_lt register)) h.registers, h.beam, h.frameDone, h.geometry⟩

theorem Twin.takeFrameDone (h : Twin v w) : SameResult Twin v.takeFrameDone w.takeFrameDone :=
  ⟨h.frameDone, h.registers, h.beam, rfl, h.geometry⟩

/-- After a reset only the extent and two colours are as before. -/
theorem reset_twin (v w : Vic) : Twin v.reset w.reset := ⟨rfl, rfl, rfl, rfl⟩

section Tick

variable {μ : Type} [VideoMemory μ]

theorem Twin.cycled (h : Twin v w) (memory : μ) : Twin (v.cycled memory) (w.cycled memory) where
  registers := by rw [cycled_registers, cycled_registers, h.registers]
  beam := by rw [cycled_beam, cycled_beam, h.beam]
  frameDone := by rw [cycled_frameDone, cycled_frameDone, h.frameDone, h.beam]
  geometry := by rw [cycled_geometry, cycled_geometry, h.geometry]

theorem Twin.tick (h : Twin v w) (memory : μ) (cycles : Nat) :
    Twin (v.tick memory cycles) (w.tick memory cycles) := by
  induction cycles with
  | zero => exact h
  | succ n ih =>
    rw [tick_succ, tick_succ]
    exact ih.cycled memory

end Tick

end Vic

/-! ### The board -/

namespace Board

variable {σ : Type} {b c : Board σ}

structure Twin (b c : Board σ) : Prop where
  memory : b.memory = c.memory
  vic : b.vic.Twin c.vic
  via1 : b.via1 = c.via1
  via2 : b.via2 = c.via2
  keyboard : b.keyboard = c.keyboard
  joystick : b.joystick = c.joystick
  drive : b.drive.Twin c.drive

theorem wires1_logged (j : Array Drive.Event) :
    Via.Wiring.Hom fun w : Wires1 σ => { w with drive := w.drive.logged j } where
  portIn _ _ pin := by cases pin <;> rfl
  portOut wires via pin := by
    cases pin
    case a => exact congrArg (Wires1.mk wires.joystick) (Drive.setAtn_logged wires.drive j _)
    all_goals rfl

theorem wires2_logged (j : Array Drive.Event) :
    Via.Wiring.Hom fun w : Wires2 σ => { w with drive := w.drive.logged j } where
  portIn _ _ pin := by cases pin <;> rfl
  portOut _ _ pin := by cases pin <;> rfl

/-- Twins as one board with two video chips and two journals of the drive. -/
theorem Twin.exists_eq (h : Twin b c) : ∃ (s : Board σ) (v w : Vic) (j k : Array Drive.Event), v.Twin w ∧
    b = { s with vic := v, drive := s.drive.logged j } ∧ c = { s with vic := w, drive := s.drive.logged k } := by
  obtain ⟨d, j, k, hj, hk⟩ := h.drive.exists_logged
  refine ⟨{ b with drive := d }, b.vic, c.vic, j, k, h.vic, by rw [← hj], ?_⟩
  rw [← hk, h.memory, h.via1, h.via2, h.keyboard, h.joystick]

theorem twin_mk (s : Board σ) {v w : Vic} (h : v.Twin w) (j k : Array Drive.Event) :
    Twin { s with vic := v, drive := s.drive.logged j } { s with vic := w, drive := s.drive.logged k } :=
  ⟨rfl, h, rfl, rfl, rfl, rfl, rfl⟩

theorem Twin.read (h : Twin b c) (address : UInt16) : SameResult Twin (b.read address) (c.read address) := by
  obtain ⟨s, v, w, j, k, hvic, rfl, rfl⟩ := h.exists_eq
  unfold Board.read
  cases Chip.ofAddress address with
  | memory => exact ⟨rfl, twin_mk s hvic j k⟩
  | vic => exact ⟨hvic.read _, twin_mk s hvic j k⟩
  | via1 =>
    have hread (j : Array Drive.Event) := (wires1_logged j).read ⟨s.joystick, s.drive⟩ s.via1 (registerOf address)
    dsimp only at hread ⊢
    rw [hread, hread]
    exact ⟨rfl, rfl, hvic, rfl, rfl, rfl, rfl, rfl⟩
  | via2 =>
    have hread (j : Array Drive.Event) :=
      (wires2_logged j).read ⟨s.keyboard, s.joystick, s.drive⟩ s.via2 (registerOf address)
    dsimp only at hread ⊢
    rw [hread, hread]
    exact ⟨rfl, rfl, hvic, rfl, rfl, rfl, rfl, rfl⟩

theorem Twin.write (h : Twin b c) (address : UInt16) (x : UInt8) :
    Twin (b.write address x) (c.write address x) := by
  obtain ⟨s, v, w, j, k, hvic, rfl, rfl⟩ := h.exists_eq
  unfold Board.write
  cases Chip.ofAddress address with
  | memory => exact ⟨rfl, hvic, rfl, rfl, rfl, rfl, rfl⟩
  | vic => exact ⟨rfl, hvic.write _ x, rfl, rfl, rfl, rfl, rfl⟩
  | via1 =>
    have hwrite (j : Array Drive.Event) :=
      (wires1_logged j).write ⟨s.joystick, s.drive⟩ s.via1 (registerOf address) x
    dsimp only at hwrite ⊢
    rw [hwrite, hwrite]
    exact ⟨rfl, hvic, rfl, rfl, rfl, rfl, rfl⟩
  | via2 =>
    have hwrite (j : Array Drive.Event) :=
      (wires2_logged j).write ⟨s.keyboard, s.joystick, s.drive⟩ s.via2 (registerOf address) x
    dsimp only at hwrite ⊢
    rw [hwrite, hwrite]
    exact ⟨rfl, hvic, rfl, rfl, rfl, rfl, rfl⟩

instance : Bus.Agrees (Twin : Board σ → Board σ → Prop) where
  value h address := (h.read address).value
  read h address := (h.read address).state
  write h address v := h.write address v

theorem Twin.peek (h : Twin b c) (address : UInt16) : b.peek address = c.peek address := by
  unfold Board.peek
  rw [h.memory, h.vic.read, h.via1, h.via2]

theorem Twin.tickVia1 (h : Twin b c) (cycles : Nat) : SameResult Twin (b.tickVia1 cycles) (c.tickVia1 cycles) where
  value := congrArg (fun via : Via => (via.tick (.ofNat cycles)).1) h.via1
  state := { h with via1 := congrArg (fun via : Via => (via.tick (.ofNat cycles)).2) h.via1 }

theorem Twin.tickVia2 (h : Twin b c) (cycles : Nat) : SameResult Twin (b.tickVia2 cycles) (c.tickVia2 cycles) where
  value := congrArg (fun via : Via => (via.tick (.ofNat cycles)).1) h.via2
  state := { h with via2 := congrArg (fun via : Via => (via.tick (.ofNat cycles)).2) h.via2 }

theorem Twin.tickVic (h : Twin b c) (cycles : Nat) : Twin (b.tickVic cycles) (c.tickVic cycles) := by
  have hvic : (b.vic.tick b.memory cycles).Twin (c.vic.tick c.memory cycles) := by
    rw [h.memory]
    exact h.vic.tick c.memory cycles
  exact { h with vic := hvic }

theorem Twin.syncSerial (h : Twin b c) : Twin b.syncSerial c.syncSerial := by
  have hclk : b.drive.clkOut = c.drive.clkOut := h.drive.eq Drive.clkOut fun _ => rfl
  have hdata : b.drive.dataOut = c.drive.dataOut := h.drive.eq Drive.dataOut fun _ => rfl
  have hvia : (b.via1.setBitA clkBit !b.drive.clkOut).setBitA dataBit (!b.drive.dataOut) =
      (c.via1.setBitA clkBit !c.drive.clkOut).setBitA dataBit (!c.drive.dataOut) := by
    rw [h.via1, hclk, hdata]
  exact { h with via1 := hvia }

theorem Twin.tickDrive [Storage σ] (h : Twin b c) (cycles : Nat) :
    Twin (b.tickDrive cycles) (c.tickDrive cycles) := by
  have hactive : b.drive.active = c.drive.active := h.drive.eq Drive.active fun _ => rfl
  have hdrive : (if b.drive.active then b.drive.tick cycles else b.drive).Twin
      (if c.drive.active then c.drive.tick cycles else c.drive) := by
    rw [hactive]
    split
    · exact h.drive.tick cycles
    · exact h.drive
  exact { h with drive := hdrive }

/-- What a reset keeps decides what comes of it. -/
theorem reset_twin (hmemory : b.memory = c.memory) (hdevice : b.drive.device = c.drive.device)
    (hstorage : b.drive.storage = c.drive.storage) (hlong : b.drive.longDirectory = c.drive.longDirectory) :
    Twin b.reset c.reset := by
  let cleared (b : Board σ) : Board σ :=
    { memory := b.memory, vic := b.vic.reset, via1 := Via.new.setCA1 true, drive := b.drive.reset }
  have hcleared : Twin (cleared b) (cleared c) :=
    ⟨hmemory, Vic.reset_twin b.vic c.vic, rfl, rfl, rfl, rfl, Drive.reset_twin hdevice hstorage hlong⟩
  exact hcleared.syncSerial

end Board

/-! ### The core -/

namespace Core

variable {σ : Type} {c d : Core σ}

structure Twin (c d : Core σ) : Prop where
  registers : c.cpu.registers = d.cpu.registers
  board : c.board.Twin d.board
  nmiLine : c.nmiLine = d.nmiLine

theorem Twin.execute (h : Twin c d) : SameResult Twin c.execute d.execute := by
  have hstep : SameResult (Cpu.Twin Board.Twin) (c.cpu.step c.board) (d.cpu.step d.board) :=
    Bus.Pair.step ⟨c.board, d.board, h.board⟩ h.registers
  have hexecute (c : Core σ) : c.execute =
      ((c.cpu.step c.board).1, ⟨(c.cpu.step c.board).2.1, (c.cpu.step c.board).2.2, c.nmiLine⟩) := rfl
  rw [hexecute, hexecute]
  exact ⟨hstep.value, hstep.state.registers, hstep.state.bus, h.nmiLine⟩

theorem Twin.enterIrq (h : Twin c d) : SameResult Twin c.enterIrq d.enterIrq := by
  have hirq := Bus.Pair.irq ⟨c.board, d.board, h.board⟩ h.registers
  exact ⟨hirq.value, hirq.state.registers, hirq.state.bus, h.nmiLine⟩

theorem Twin.enterNmi (h : Twin c d) : SameResult Twin c.enterNmi d.enterNmi := by
  have hnmi := Bus.Pair.nmi ⟨c.board, d.board, h.board⟩ h.registers
  exact ⟨hnmi.value, hnmi.state.registers, hnmi.state.bus, h.nmiLine⟩

theorem Twin.tickVia1 (h : Twin c d) (cycles : Nat) : SameResult Twin (c.tickVia1 cycles) (d.tickVia1 cycles) :=
  ⟨(h.board.tickVia1 cycles).value, h.registers, (h.board.tickVia1 cycles).state, h.nmiLine⟩

theorem Twin.tickVia2 (h : Twin c d) (cycles : Nat) : SameResult Twin (c.tickVia2 cycles) (d.tickVia2 cycles) :=
  ⟨(h.board.tickVia2 cycles).value, h.registers, (h.board.tickVia2 cycles).state, h.nmiLine⟩

theorem Twin.sampled (h : Twin c d) (cycles : Nat) : Twin (c.sampled cycles) (d.sampled cycles) :=
  ⟨h.registers, (h.board.tickVia1 cycles).state, (h.tickVia1 cycles).value⟩

theorem Twin.follow (h : Twin c d) (cycles : Nat) : SameResult Twin (c.follow cycles) (d.follow cycles) := by
  have hrises : c.Rises cycles ↔ d.Rises cycles := by
    rw [Rises, Rises, (h.tickVia1 cycles).value, h.nmiLine]
  have hnmi := (h.sampled cycles).enterNmi
  rw [follow_eq, follow_eq]
  by_cases hr : c.Rises cycles
  · rw [if_pos hr, if_pos (hrises.1 hr), hnmi.value]
    exact ⟨rfl, (hnmi.state.tickVia1 _).state⟩
  · rw [if_neg hr, if_neg (mt hrises.2 hr)]
    exact ⟨rfl, h.sampled cycles⟩

theorem Twin.followed (h : Twin c d) : SameResult Twin c.followed d.followed := by
  rw [followed_eq, followed_eq, h.execute.value]
  exact h.execute.state.follow _

theorem Twin.takeIrq (h : Twin c d) : SameResult Twin c.takeIrq d.takeIrq := by
  have hfollow := h.enterIrq.state.follow d.enterIrq.1
  rw [takeIrq_follow, takeIrq_follow, h.enterIrq.value, hfollow.value]
  exact ⟨rfl, (hfollow.state.tickVia2 _).state⟩

theorem Twin.polled (h : Twin c d) : SameResult Twin c.polled d.polled := by
  unfold Core.polled
  rw [h.execute.value, h.followed.value]
  exact h.followed.state.tickVia2 _

theorem Twin.irqOf (h : Twin c d) : SameResult Twin c.irqOf d.irqOf := by
  unfold Core.irqOf
  rw [h.polled.value]
  split
  · exact h.polled.state.takeIrq
  · exact ⟨rfl, h.polled.state⟩

theorem Twin.advance [Storage σ] (h : Twin c d) (cycles : Nat) : Twin (c.advance cycles) (d.advance cycles) :=
  ⟨h.registers, ((h.board.tickVic cycles).tickDrive cycles).syncSerial, h.nmiLine⟩

theorem Twin.step [Storage σ] (h : Twin c d) : SameResult Twin c.step d.step := by
  have hcycles : c.step.1 = d.step.1 := by
    rw [step_fst, step_fst, h.execute.value, h.followed.value, h.irqOf.value]
  refine ⟨hcycles, ?_⟩
  rw [step_snd, step_snd, hcycles]
  exact h.irqOf.state.advance _

theorem reset_twin (h : c.board.reset.Twin d.board.reset) : SameResult Twin c.reset d.reset := by
  have hreset := Bus.Pair.reset ⟨c.board.reset, d.board.reset, h⟩ c.cpu d.cpu
  exact ⟨hreset.value, hreset.state.registers, hreset.state.bus, rfl⟩

end Core

end Vic20
