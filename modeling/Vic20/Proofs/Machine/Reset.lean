import Vic20.Proofs.Machine.Twin
import Vic20.Proofs.Storage.Recorded
import Vic20.Storage.Disk

/-! A reset forgets all but memory. Two machines with the same memory, the same storage and the same drive settings
are twins after it, whatever else they were in the midst of, and twins stay twins whatever a host does to both. -/

namespace Vic20

/-! ### What a host does -/

/-- What is done to a part of the board by itself, past the bus. -/
inductive Board.Access (σ : Type) where
  | memory (f : Memory → Memory)
  | via1 (f : Via → Via)
  | via2 (f : Via → Via)
  | keyboard (f : Keyboard → Keyboard)
  | joystick (f : Joystick → Joystick)
  | vicWrite (register v : UInt8)
  | vicReset
  | vicTick (cycles : Nat)
  | drive (o : Drive.Operation σ)
  | syncSerial

def Board.access {σ : Type} [Storage σ] (b : Board σ) : Access σ → Board σ
  | .memory f => { b with memory := f b.memory }
  | .via1 f => { b with via1 := f b.via1 }
  | .via2 f => { b with via2 := f b.via2 }
  | .keyboard f => { b with keyboard := f b.keyboard }
  | .joystick f => { b with joystick := f b.joystick }
  | .vicWrite register v => { b with vic := b.vic.write register v }
  | .vicReset => { b with vic := b.vic.reset }
  | .vicTick cycles => b.tickVic cycles
  | .drive o => { b with drive := b.drive.apply o }
  | .syncSerial => b.syncSerial

namespace Machine

/-- What a host does to a machine, or asks of it. -/
inductive Operation (σ : Type) where
  | reset
  | runFrame
  | read (address : UInt16)
  | write (address : UInt16) (v : UInt8)
  | peek (address : UInt16)
  | type (text : List UInt8)
  | setBlock (block : Nat) (fitted : Bool)
  | setExpansion (preset : Expansion)
  | insert (bytes : List UInt8) (address : Option UInt16)
  | removeCartridges
  | load (bytes : List UInt8) (restart run : Bool)
  | attach (storage : σ)
  | setKey (row column : Nat) (pressed : Bool)
  | releaseKeys
  | setSwitch (s : Switch) (closed : Bool)
  | setRestore (pressed : Bool)
  | takeFrameDone
  | registers (f : Cpu.Registers → Cpu.Registers)
  | board (a : Board.Access σ)

/-- What the host is told. -/
inductive Answer where
  | none
  | flag (set : Bool)
  | byte (v : UInt8)
  | cycles (n : Nat)
  | outcome (r : Except Error Unit)
  | address (r : Except Error UInt16)

variable {σ : Type} [Storage σ]

def perform (m : Machine σ) : Operation σ → Answer × Machine σ
  | .reset => (.none, m.reset)
  | .runFrame => (.cycles m.runFrame.1, m.runFrame.2)
  | .read address => (.byte (m.read address).1, (m.read address).2)
  | .write address v => (.none, m.write address v)
  | .peek address => (.byte (m.peek address), m)
  | .type text => (.none, m.type text)
  | .setBlock block fitted => (.outcome (m.setBlock block fitted).1, (m.setBlock block fitted).2)
  | .setExpansion preset => (.none, m.setExpansion preset)
  | .insert bytes address => (.address (m.insert bytes address).1, (m.insert bytes address).2)
  | .removeCartridges => (.none, m.removeCartridges)
  | .load bytes restart run => (.address (m.load bytes restart run).1, (m.load bytes restart run).2)
  | .attach storage => (.none, m.attach storage)
  | .setKey row column pressed => (.none, m.setKey row column pressed)
  | .releaseKeys => (.none, m.releaseKeys)
  | .setSwitch s closed => (.none, m.setSwitch s closed)
  | .setRestore pressed => (.none, m.setRestore pressed)
  | .takeFrameDone =>
    (.flag m.core.board.vic.takeFrameDone.1, m.onBoard fun b => { b with vic := b.vic.takeFrameDone.2 })
  | .registers f =>
    (.none, { m with core := { m.core with cpu := { m.core.cpu with registers := f m.core.cpu.registers } } })
  | .board a => (.none, m.onBoard (·.access a))

/-- Performs operations in order. Gives what the host was told. -/
def performAll (m : Machine σ) : List (Operation σ) → List Answer × Machine σ
  | [] => ([], m)
  | o :: os =>
    let (answer, m) := m.perform o
    let (answers, m) := m.performAll os
    (answer :: answers, m)

end Machine

/-! ### Twins stay twins -/

section Twins

variable {σ : Type}

theorem Board.Twin.type {b c : Board σ} (h : b.Twin c) (text : List UInt8) :
    SameResult Twin (b.type text) (c.type text) := by
  induction text generalizing b c with
  | nil => exact ⟨rfl, h⟩
  | cons v text ih =>
    have hcount := h.read keyboardCount
    have hcapacity := hcount.state.read keyboardCapacity
    unfold Board.type
    dsimp only
    rw [hcount.value, hcapacity.value]
    split
    · exact ⟨rfl, hcapacity.state⟩
    · exact ih ((hcapacity.state.write _ v).write _ _)

theorem Board.Twin.access [Storage σ] {b c : Board σ} (h : b.Twin c) (a : Access σ) :
    (b.access a).Twin (c.access a) := by
  cases a with
  | memory f => exact { h with memory := congrArg f h.memory }
  | via1 f => exact { h with via1 := congrArg f h.via1 }
  | via2 f => exact { h with via2 := congrArg f h.via2 }
  | keyboard f => exact { h with keyboard := congrArg f h.keyboard }
  | joystick f => exact { h with joystick := congrArg f h.joystick }
  | vicWrite register v =>
    have hvic := h.vic.write register v
    exact { h with vic := hvic }
  | vicReset =>
    have hvic := Vic.reset_twin b.vic c.vic
    exact { h with vic := hvic }
  | vicTick cycles => exact h.tickVic cycles
  | drive o =>
    have hdrive := h.drive.apply o
    exact { h with drive := hdrive }
  | syncSerial => exact h.syncSerial

namespace Machine

variable {m m' : Machine σ}

structure Twin (m m' : Machine σ) : Prop where
  core : m.core.Twin m'.core
  cycle : m.cycle = m'.cycle
  typing : m.typing = m'.typing

theorem Twin.onBoard (h : Twin m m') {f g : Board σ → Board σ} (hf : (f m.core.board).Twin (g m'.core.board)) :
    Twin (m.onBoard f) (m'.onBoard g) :=
  ⟨⟨h.core.registers, hf, h.core.nmiLine⟩, h.cycle, h.typing⟩

theorem Twin.note (h : Twin m m') (e e' : Event) : Twin (m.note e) (m'.note e') := ⟨h.core, h.cycle, h.typing⟩

theorem Twin.read (h : Twin m m') (address : UInt16) : SameResult Twin (m.read address) (m'.read address) :=
  ⟨(h.core.board.read address).value,
    ⟨h.core.registers, (h.core.board.read address).state, h.core.nmiLine⟩, h.cycle, h.typing⟩

theorem Twin.write (h : Twin m m') (address : UInt16) (v : UInt8) : Twin (m.write address v) (m'.write address v) :=
  h.onBoard (h.core.board.write address v)

instance : Bus.Agrees (Twin : Machine σ → Machine σ → Prop) where
  value h address := (h.read address).value
  read h address := (h.read address).state
  write h address v := h.write address v

theorem Twin.peek (h : Twin m m') (address : UInt16) : m.peek address = m'.peek address := h.core.board.peek address

theorem Twin.type (h : Twin m m') (text : List UInt8) : Twin (m.type text) (m'.type text) :=
  ⟨h.core, h.cycle, congrArg (· ++ text) h.typing⟩

/-! #### Running -/

section Running

variable [Storage σ]

omit [Storage σ] in
/-- What the drive has noted is moved, and nothing else. -/
theorem collectDrive_eq (m : Machine σ) : ∃ drive journal, drive.Twin m.core.board.drive ∧
    m.collectDrive = { m with core := { m.core with board := { m.core.board with drive } }, journal } := by
  unfold collectDrive
  split
  · exact ⟨m.core.board.drive, m.journal, rfl, rfl⟩
  · exact ⟨m.core.board.drive.takeJournal.2, _, rfl, rfl⟩

omit [Storage σ] in
theorem Twin.collectDrive (h : Twin m m') : Twin m.collectDrive m'.collectDrive := by
  obtain ⟨drive, journal, hdrive, hm⟩ := collectDrive_eq m
  obtain ⟨drive', journal', hdrive', hm'⟩ := collectDrive_eq m'
  have htwin : drive.Twin drive' := hdrive.trans (h.core.board.drive.trans hdrive'.symm)
  rw [hm, hm']
  exact ⟨⟨h.core.registers, { h.core.board with drive := htwin }, h.core.nmiLine⟩, h.cycle, h.typing⟩

theorem Twin.step (h : Twin m m') : SameResult Twin m.step m'.step := by
  refine ⟨h.core.step.value, Twin.collectDrive ?_⟩
  exact ⟨h.core.step.state, h.cycle, h.typing⟩

theorem Twin.runSteps (h : Twin m m') (fuel run : Nat) :
    SameResult Twin (m.runSteps fuel run) (m'.runSteps fuel run) := by
  induction fuel generalizing m m' run with
  | zero => exact ⟨rfl, h⟩
  | succ fuel ih =>
    unfold Machine.runSteps
    split
    · exact ⟨rfl, h⟩
    · dsimp only
      rw [h.step.value]
      exact ih h.step.state _

theorem Twin.runFrame (h : Twin m m') : SameResult Twin m.runFrame m'.runFrame := by
  have hrun := h.runSteps frameFuel 0
  unfold Machine.runFrame
  generalize m.runSteps frameFuel 0 = r at hrun
  generalize m'.runSteps frameFuel 0 = r' at hrun
  have htype : SameResult Board.Twin (r.2.core.board.type r.2.typing) (r'.2.core.board.type r'.2.typing) := by
    rw [hrun.state.typing]
    exact hrun.state.core.board.type _
  exact ⟨hrun.value, ⟨hrun.state.core.registers, htype.state, hrun.state.core.nmiLine⟩,
    congrArg₂ (· + UInt32.ofNat ·) hrun.state.cycle hrun.value, htype.value⟩

theorem Twin.awaitReady (h : Twin m m') (frames : Nat) :
    SameResult Twin (m.awaitReady frames) (m'.awaitReady frames) := by
  induction frames generalizing m m' with
  | zero =>
    have hread := h.read cursorRow
    unfold Machine.awaitReady
    dsimp only
    rw [hread.value]
    exact ⟨rfl, hread.state⟩
  | succ frames ih =>
    have hread := h.read cursorRow
    unfold Machine.awaitReady
    dsimp only
    rw [hread.value]
    split
    · exact ⟨rfl, hread.state⟩
    · exact ih hread.state.runFrame.state

end Running

/-! #### Reset -/

/-- What is left of a machine by a reset. -/
theorem reset_twin (hmemory : m.core.board.memory = m'.core.board.memory)
    (hdevice : m.core.board.drive.device = m'.core.board.drive.device)
    (hstorage : m.core.board.drive.storage = m'.core.board.drive.storage)
    (hlong : m.core.board.drive.longDirectory = m'.core.board.drive.longDirectory) :
    Twin m.reset m'.reset := by
  have hboard := Board.reset_twin hmemory hdevice hstorage hlong
  have hcore := Core.reset_twin hboard
  exact ⟨hcore.state, congrArg UInt32.ofNat hcore.value, rfl⟩

theorem Twin.reset (h : Twin m m') : Twin m.reset m'.reset :=
  reset_twin h.core.board.memory (h.core.board.drive.eq Drive.device fun _ => rfl)
    (h.core.board.drive.eq Drive.storage fun _ => rfl) (h.core.board.drive.eq Drive.longDirectory fun _ => rfl)

/-! #### Media -/

theorem Twin.onMemory (h : Twin m m') (f : Memory → Memory) :
    Twin (m.onBoard fun b => { b with memory := f b.memory })
      (m'.onBoard fun b => { b with memory := f b.memory }) :=
  h.onBoard { h.core.board with memory := congrArg f h.core.board.memory }

theorem Twin.setBlock (h : Twin m m') (block : Nat) (fitted : Bool) :
    SameResult Twin (m.setBlock block fitted) (m'.setBlock block fitted) := by
  unfold Machine.setBlock
  cases Memory.blockSizes[block]? with
  | none => exact ⟨rfl, h⟩
  | some size =>
    dsimp only
    rw [h.core.board.memory]
    split
    · exact ⟨rfl, h⟩
    · exact ⟨rfl, (h.onMemory (·.setBlock block fitted)).note _ _⟩

theorem Twin.setExpansion (h : Twin m m') (preset : Expansion) :
    Twin (m.setExpansion preset) (m'.setExpansion preset) := by
  have hfold (is : List (Fin 5)) {m m' : Machine σ} (h : Twin m m') :
      Twin (is.foldl (fun m i => (m.setBlock i.val (preset.blocks.get i)).2) m)
        (is.foldl (fun m i => (m.setBlock i.val (preset.blocks.get i)).2) m') := by
    induction is generalizing m m' with
    | nil => exact h
    | cons i is ih => exact ih (h.setBlock _ _).state
  exact hfold (List.finRange 5) (h.note _ _)

theorem Twin.insert (h : Twin m m') (bytes : List UInt8) (address : Option UInt16) :
    SameResult Twin (m.insert bytes address) (m'.insert bytes address) := by
  unfold Machine.insert
  cases Cartridge.parse bytes address with
  | error e => exact ⟨rfl, h⟩
  | ok c => exact ⟨rfl, (h.onMemory (·.insert c)).note _ _⟩

theorem Twin.removeCartridges (h : Twin m m') : Twin m.removeCartridges m'.removeCartridges :=
  (h.onMemory (·.removeCartridges)).note _ _

theorem Twin.place (h : Twin m m') (prg : Prg) (run : Bool) : Twin (m.place prg run) (m'.place prg run) := by
  have hload : Twin (prg.load m) (prg.load m') := Bus.Pair.writeAll ⟨m, m', h⟩ prg.address prg.payload
  have hend : SameResult Twin (Program.setEnd (prg.load m) prg.payload.length)
      (Program.setEnd (prg.load m') prg.payload.length) := Bus.Pair.setEnd ⟨_, _, hload⟩ _
  unfold Machine.place
  generalize Program.setEnd (prg.load m) prg.payload.length = r at hend
  generalize Program.setEnd (prg.load m') prg.payload.length = r' at hend
  cases run with
  | true => exact (hend.state.note _ _).type runCommand
  | false => exact hend.state.note _ _

variable [Storage σ]

theorem Twin.boot (h : Twin m m') : SameResult Twin m.boot m'.boot :=
  (h.reset.write cursorRow 0).awaitReady bootLimit

theorem Twin.load (h : Twin m m') (bytes : List UInt8) (restart run : Bool) :
    SameResult Twin (m.load bytes restart run) (m'.load bytes restart run) := by
  unfold Machine.load
  cases Prg.parse bytes with
  | error e => exact ⟨rfl, h⟩
  | ok prg =>
    have hstart : SameResult Twin (if restart then m.boot else (.ok (), m))
        (if restart then m'.boot else (.ok (), m')) := by
      cases restart with
      | true => exact h.boot
      | false => exact ⟨rfl, h⟩
    dsimp only
    generalize (if restart then m.boot else (.ok (), m)) = r at hstart
    generalize (if restart then m'.boot else (.ok (), m')) = r' at hstart
    obtain ⟨⟨e⟩ | ⟨⟩, m⟩ := r <;> obtain ⟨r', m'⟩ := r' <;> obtain rfl := hstart.value
    · exact ⟨rfl, hstart.state⟩
    · exact ⟨rfl, hstart.state.place prg run⟩

/-! #### All operations -/

theorem Twin.perform (h : Twin m m') (o : Operation σ) : SameResult Twin (m.perform o) (m'.perform o) := by
  have hboard := h.core.board
  cases o with
  | reset => exact .pair h.reset _
  | runFrame => exact h.runFrame.map Answer.cycles
  | read address => exact (h.read address).map Answer.byte
  | write address v => exact .pair (h.write address v) _
  | peek address => exact ⟨congrArg Answer.byte (h.peek address), h⟩
  | type text => exact .pair (h.type text) _
  | setBlock block fitted => exact (h.setBlock block fitted).map Answer.outcome
  | setExpansion preset => exact .pair (h.setExpansion preset) _
  | insert bytes address => exact (h.insert bytes address).map Answer.address
  | removeCartridges => exact .pair h.removeCartridges _
  | load bytes restart run => exact (h.load bytes restart run).map Answer.address
  | attach storage => exact .pair (h.onBoard (hboard.access (.drive (.attach storage)))) _
  | setKey row column pressed =>
    exact .pair (h.onBoard (hboard.access (.keyboard (·.set row column pressed)))) _
  | releaseKeys => exact .pair (h.onBoard (hboard.access (.keyboard fun _ => .new))) _
  | setSwitch s closed => exact .pair (h.onBoard (hboard.access (.joystick (·.set s closed)))) _
  | setRestore pressed => exact .pair (h.onBoard (hboard.access (.via1 (·.setCA1 !pressed)))) _
  | takeFrameDone =>
    have hvic := hboard.vic.takeFrameDone
    have htaken : Twin (m.onBoard fun b => { b with vic := b.vic.takeFrameDone.2 })
        (m'.onBoard fun b => { b with vic := b.vic.takeFrameDone.2 }) :=
      h.onBoard { hboard with vic := hvic.state }
    exact ⟨congrArg Answer.flag hvic.value, htaken⟩
  | registers f =>
    exact ⟨rfl, ⟨congrArg f h.core.registers, hboard, h.core.nmiLine⟩, h.cycle, h.typing⟩
  | board a => exact .pair (h.onBoard (hboard.access a)) _

theorem Twin.performAll (h : Twin m m') (os : List (Operation σ)) :
    SameResult Twin (m.performAll os) (m'.performAll os) := by
  induction os generalizing m m' with
  | nil => exact ⟨rfl, h⟩
  | cons o os ih =>
    have hfirst := h.perform o
    have hrest := ih hfirst.state
    exact ⟨congrArg₂ (· :: ·) hfirst.value hrest.value, hrest.state⟩

/-! ### What a reset forgets -/

/-- What can be seen of two machines is the same: what the bus gives, the registers of the processor, the cycles
since the reset, what waits to be typed, the lines and the handshake of the drive, and its storage. -/
structure SameView (m m' : Machine σ) : Prop where
  reads (address : UInt16) : (m.read address).1 = (m'.read address).1
  peeks (address : UInt16) : m.peek address = m'.peek address
  registers : m.core.cpu.registers = m'.core.cpu.registers
  cycle : m.cycle = m'.cycle
  typing : m.typing = m'.typing
  wire : m.core.board.drive.wire = m'.core.board.drive.wire
  storage : m.core.board.drive.storage = m'.core.board.drive.storage

omit [Storage σ] in
theorem Twin.sameView (h : Twin m m') : SameView m m' where
  reads address := (h.read address).value
  peeks := h.peek
  registers := h.core.registers
  cycle := h.cycle
  typing := h.typing
  wire := h.core.board.drive.eq Drive.wire fun _ => rfl
  storage := h.core.board.drive.eq Drive.storage fun _ => rfl

section Forgets

omit [Storage σ] in
/-- The machine with the record of its storage empty. -/
def recordAnew (m : Machine (Storage.Recorded σ)) : Machine (Storage.Recorded σ) :=
  m.onBoard fun b => { b with drive := { b.drive with storage := b.drive.storage.map Storage.Recorded.anew } }

/-- After a reset of two machines with the same memory, storage and drive settings, whatever a host does to both
has the same answers, leaves twins and makes the drives do the same to their storage. -/
theorem reset_forgets (m m' : Machine (Storage.Recorded σ))
    (hmemory : m.core.board.memory = m'.core.board.memory)
    (hstorage : m.core.board.drive.storage.map (·.behind) = m'.core.board.drive.storage.map (·.behind))
    (hdevice : m.core.board.drive.device = m'.core.board.drive.device)
    (hlong : m.core.board.drive.longDirectory = m'.core.board.drive.longDirectory)
    (os : List (Operation (Storage.Recorded σ))) :
    (m.recordAnew.reset.performAll os).1 = (m'.recordAnew.reset.performAll os).1 ∧
      (m.recordAnew.reset.performAll os).2.Twin (m'.recordAnew.reset.performAll os).2 ∧
      (m.recordAnew.reset.performAll os).2.SameView (m'.recordAnew.reset.performAll os).2 := by
  have hanew (s : Option (Storage.Recorded σ)) :
      s.map Storage.Recorded.anew = (s.map (·.behind)).map (⟨·, []⟩) := by cases s <;> rfl
  have hrecord : m.recordAnew.core.board.drive.storage = m'.recordAnew.core.board.drive.storage :=
    (hanew _).trans (hstorage ▸ (hanew _).symm)
  have hreset : Twin m.recordAnew.reset m'.recordAnew.reset := reset_twin hmemory hdevice hrecord hlong
  have hall := hreset.performAll os
  exact ⟨hall.value, hall.state, hall.state.sameView⟩

end Forgets

/-- A machine as it is switched on, with blank ROMs and an empty disk. -/
def blank : Machine (Storage.Recorded Disk) :=
  { core := { cpu := .new, board := {
      memory := .new ⟨.zero _, .zero _, .zero _⟩
      drive := { device := 8, storage := some ⟨{}, []⟩ } } } }

/-- The same machine in the midst of its work: interrupts pending, keys held, text waiting to be typed, and the
drive sending a file of which it has read a byte. -/
def busy : Machine (Storage.Recorded Disk) :=
  { core := {
      cpu := {
        registers := { a := 0x2A, s := 0x10, pc := 0xA000 }, cycles := 99, unsupported := #[⟨0x02, 0xA000⟩] }
      board := {
        memory := blank.core.board.memory
        vic := (Vic.new.write 0x3 0x2E).write 0xF 0x1B
        via1 := { Via.new with flags := 0x42, enabled := 0x42 }
        via2 := { Via.new with timer1 := { counter := 7, latch := 0x4289 }, auxiliary := 0x40 }
        keyboard := (Keyboard.new.set 7 1 true).selectColumns 0
        joystick := { fire := true }
        drive := {
          device := 8, storage := some ⟨{}, [.openFile "A.PRG" .read, .read ⟨0, 0⟩]⟩, arbitration := .talking
          link := .sendDataValid, bit := 3, byte := 0x41, channel := some 0
          channels := (Vector.replicate _ .closed).set 0 (.read ⟨0, 1⟩ 5) } }
      nmiLine := true }
    cycle := 1234, frames := 7, typing := [0x52] }

/-- A program loaded and run with a key held, then a look at the serial lines under attention. -/
def session : List (Operation (Storage.Recorded Disk)) :=
  [.setKey 1 2 true, .load [0x01, 0x10, 0x60] true true, .runFrame, .board (.drive (.signal (.atn true))),
    .runFrame, .read 0x9111]

theorem reset_forgets_busy :
    blank.core.board.memory = busy.core.board.memory ∧
      (blank.recordAnew.reset.performAll session).1 = (busy.recordAnew.reset.performAll session).1 ∧
      (blank.recordAnew.reset.performAll session).2.Twin (busy.recordAnew.reset.performAll session).2 ∧
      (blank.recordAnew.reset.performAll session).2.SameView (busy.recordAnew.reset.performAll session).2 :=
  ⟨rfl, reset_forgets blank busy rfl rfl rfl rfl session⟩

end Machine
end Twins
end Vic20
