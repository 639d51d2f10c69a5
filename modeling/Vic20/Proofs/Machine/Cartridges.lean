import Vic20.Proofs.Machine.History
import Vic20.Proofs.Memory.Cartridges

/-! Cartridges in a machine. A cartridge shows in its window and nowhere else. Once the cartridges are removed the
machine reads as one that never had any, to which the same has been done. Where the processor has run a cartridge,
that is to say: in which the same has been written. -/

namespace Vic20

namespace Machine

variable {σ : Type}

/-! ### What a cartridge shows -/

/-- The end of a dump fills its window over and over, and no other address reads differently. -/
structure Inserted (m : Machine σ) (bytes : List UInt8) (address : Option UInt16) (m' : Machine σ) : Prop where
  window : ∀ i < 8192,
    let body := Cartridge.bodyOf bytes address
    let used := Cartridge.usedOf body
    body[body.length - used + i % used]? =
      some (m'.read (Cartridge.windowOf (Cartridge.targetOf bytes address) + UInt16.ofNat i)).1
  others : ∀ a, (∀ i < 8192, a ≠ Cartridge.windowOf (Cartridge.targetOf bytes address) + UInt16.ofNat i) →
    (m'.read a).1 = (m.read a).1

theorem toNat_inWindow (target : UInt16) {i : Nat} (hi : i < 8192) :
    (Cartridge.windowOf target + UInt16.ofNat i).toNat = Place.start (Cartridge.slotOf target) + i := by
  have hstart := Memory.start_eq (Cartridge.slotOf target)
  have hsmall : i % 0x10000 = i := Nat.mod_eq_of_lt (by omega)
  rw [UInt16.toNat_add, Cartridge.toNat_windowOf, UInt16.toNat_ofNat']
  omega

theorem outside_inWindow {slot : Fin 4} {a : UInt16} (h : Place.start slot ≤ a.toNat)
    (h' : a.toNat < Place.start slot + 0x2000) : OutsideChips a := by
  have hstart := Memory.start_eq slot
  simp only [OutsideChips, UInt16.lt_iff_toNat_lt, UInt16.le_iff_toNat_le, UInt16.reduceToNat]
  omega

variable (m : Machine σ)

theorem read_note (e : Event) (a : UInt16) : ((m.note e).read a).1 = (m.read a).1 := by
  obtain ⟨⟨cpu, board, line⟩, cycle, frames, typing, journal⟩ := m
  rfl

section Windows

variable (c : Cartridge) {target : UInt16} (h : c.slot = Cartridge.slotOf target)

include h

theorem read_insert_inside {i : Nat} (hi : i < cartridgeSize) :
    ((m.onMemory (·.insert c)).read (Cartridge.windowOf target + UInt16.ofNat i)).1 = c.image.read ⟨i, hi⟩ := by
  have hsize : i < 8192 := hi
  have hnat := toNat_inWindow target hsize
  rw [← h] at hnat
  have hfrom : Place.start c.slot ≤ (Cartridge.windowOf target + UInt16.ofNat i).toNat := by omega
  have hto : (Cartridge.windowOf target + UInt16.ofNat i).toNat < Place.start c.slot + 0x2000 := by omega
  rw [read_memory _ (outside_inWindow hfrom hto)]
  refine (m.core.board.memory.read_insert_window c hfrom hto).trans (congrArg _ (Fin.ext ?_))
  dsimp only
  omega

theorem read_insert_elsewhere {a : UInt16} (ha : ∀ i < 8192, a ≠ Cartridge.windowOf target + UInt16.ofNat i) :
    ((m.onMemory (·.insert c)).read a).1 = (m.read a).1 := by
  refine m.read_onMemory (m.core.board.memory.read_insert_outside c fun hin => ?_)
  have hi : a.toNat - Place.start c.slot < 8192 := by omega
  have hnat := toNat_inWindow target hi
  rw [← h] at hnat
  exact ha _ hi (UInt16.toNat_inj.1 (by omega))

end Windows

section Inserting

variable {bytes : List UInt8} {address : Option UInt16}

theorem insert_long (h : 4096 ≤ (Cartridge.bodyOf bytes address).length) :
    (m.insert bytes address).1 = .ok (Cartridge.targetOf bytes address) ∧
      Inserted m bytes address (m.insert bytes address).2 := by
  have hparse := Cartridge.parse_eq bytes address
  rw [if_pos h] at hparse
  obtain ⟨c, hc, htarget, hslot, himage⟩ : ∃ c, Cartridge.parse bytes address = .ok c ∧
      c.address = Cartridge.targetOf bytes address ∧ c.slot = Cartridge.slotOf (Cartridge.targetOf bytes address) ∧
      c.image = Cartridge.fill (Cartridge.bodyOf bytes address).toArray
        (Cartridge.usedOf (Cartridge.bodyOf bytes address)) :=
    ⟨_, hparse, rfl, rfl, rfl⟩
  have hinsert : m.insert bytes address =
      (.ok c.address, (m.onMemory (·.insert c)).note (.cartridge c.address bytes.length)) := by
    unfold insert
    rw [hc]
    rfl
  rw [hinsert, htarget]
  refine ⟨rfl, fun i hi => ?_, fun a ha => ?_⟩
  · have hfill := Cartridge.fill_read h ⟨i, hi⟩
    dsimp only
    rw [read_note, m.read_insert_inside c hslot hi, himage]
    exact hfill
  · rw [read_note, m.read_insert_elsewhere c hslot ha]

theorem insert_short (h : (Cartridge.bodyOf bytes address).length < 4096) :
    m.insert bytes address = (.error (.cartridgeTooShort bytes.length), m) := by
  have hparse := Cartridge.parse_eq bytes address
  rw [if_neg (Nat.not_le.2 h)] at hparse
  unfold insert
  rw [hparse]

end Inserting
end Machine

/-! ### Without cartridges -/

/-- The video chip sees no cartridge. -/
theorem Vic.tick_removeCartridges (vic : Vic) (memory : Memory) (cycles : Nat) :
    vic.tick memory.removeCartridges cycles = vic.tick memory cycles := by
  induction cycles generalizing vic with
  | zero => rfl
  | succ cycles ih => exact ih _

namespace Board

variable {σ : Type} (b : Board σ)

def removeCartridges : Board σ := { b with memory := b.memory.removeCartridges }

theorem removeCartridges_read (address : UInt16) :
    (b.read address).2.removeCartridges = (b.removeCartridges.read address).2 := by
  obtain ⟨memory, vic, via1, via2, keyboard, joystick, drive⟩ := b
  unfold Board.read
  cases Chip.ofAddress address <;> rfl

theorem removeCartridges_write (address : UInt16) (v : UInt8) :
    (b.write address v).removeCartridges = b.removeCartridges.write address v := by
  obtain ⟨memory, vic, via1, via2, keyboard, joystick, drive⟩ := b
  unfold Board.write removeCartridges
  cases Chip.ofAddress address with
  | memory => simp only [memory.removeCartridges_write]
  | vic | via1 | via2 => rfl

theorem removeCartridges_tickVic (cycles : Nat) :
    (b.tickVic cycles).removeCartridges = b.removeCartridges.tickVic cycles := by
  obtain ⟨memory, vic, via1, via2, keyboard, joystick, drive⟩ := b
  simp only [tickVic, removeCartridges, Vic.tick_removeCartridges]

theorem removeCartridges_access [Storage σ] {a : Access σ} (h : a.OnBus) :
    (b.access a).removeCartridges = b.removeCartridges.access a := by
  cases a with
  | memory f => cases h
  | vicTick cycles => exact b.removeCartridges_tickVic cycles
  | via1 | via2 | keyboard | joystick | vicWrite | vicReset | drive | syncSerial => rfl

end Board

namespace Machine

variable {σ : Type}

/-- The second machine is the first without its cartridges. What they noted may differ. -/
structure Bare (m m' : Machine σ) : Prop where
  cpu : m'.core.cpu = m.core.cpu
  board : m'.core.board = m.core.board.removeCartridges
  nmiLine : m'.core.nmiLine = m.core.nmiLine
  cycle : m'.cycle = m.cycle
  frames : m'.frames = m.frames
  typing : m'.typing = m.typing

namespace Bare

variable {m m' : Machine σ} (h : Bare m m')

include h

theorem eq : m' = { m.onMemory Memory.removeCartridges with journal := m'.journal } := by
  obtain ⟨⟨cpu', board', line'⟩, cycle', frames', typing', journal'⟩ := m'
  obtain rfl : cpu' = m.core.cpu := h.cpu
  obtain rfl : board' = m.core.board.removeCartridges := h.board
  obtain rfl : line' = m.core.nmiLine := h.nmiLine
  obtain rfl : cycle' = m.cycle := h.cycle
  obtain rfl : frames' = m.frames := h.frames
  obtain rfl : typing' = m.typing := h.typing
  rfl

theorem onBoard {f g : Board σ → Board σ}
    (hf : g m.core.board.removeCartridges = (f m.core.board).removeCartridges) : Bare (m.onBoard f) (m'.onBoard g) :=
  { h with board := (congrArg g h.board).trans hf }

theorem note (e e' : Event) : Bare (m.note e) (m'.note e') :=
  ⟨h.cpu, h.board, h.nmiLine, h.cycle, h.frames, h.typing⟩

theorem read (address : UInt16) : Bare (m.read address).2 (m'.read address).2 := by
  have hread := h.onBoard (f := fun b => (b.read address).2) (g := fun b => (b.read address).2)
    (m.core.board.removeCartridges_read address).symm
  exact hread

theorem write (address : UInt16) (v : UInt8) : Bare (m.write address v) (m'.write address v) :=
  h.onBoard (m.core.board.removeCartridges_write address v).symm

theorem onMemory {f : Memory → Memory}
    (hf : f m.core.board.memory.removeCartridges = (f m.core.board.memory).removeCartridges) :
    Bare (m.onMemory f) (m'.onMemory f) :=
  h.onBoard (congrArg (fun memory => { m.core.board with memory }) hf)

theorem type (text : List UInt8) : Bare (m.type text) (m'.type text) :=
  { h with typing := congrArg (· ++ text) h.typing }

theorem setBlock (block : Nat) (fitted : Bool) : Bare (m.setBlock block fitted).2 (m'.setBlock block fitted).2 := by
  have hfitted : m'.core.board.memory.hasBlock block = m.core.board.memory.hasBlock block := by
    rw [h.board]
    cases block <;> rfl
  unfold Machine.setBlock
  cases Memory.blockSizes[block]? with
  | none => exact h
  | some size =>
    dsimp only
    rw [hfitted]
    split
    · exact h
    · have hset := h.onMemory (f := (·.setBlock block fitted))
        (m.core.board.memory.removeCartridges_setBlock block fitted).symm
      exact hset.note _ _

theorem setExpansion (preset : Expansion) : Bare (m.setExpansion preset) (m'.setExpansion preset) := by
  have hfold (is : List (Fin 5)) {m m' : Machine σ} (h : Bare m m') :
      Bare (is.foldl (fun m i => (m.setBlock i.val (preset.blocks.get i)).2) m)
        (is.foldl (fun m i => (m.setBlock i.val (preset.blocks.get i)).2) m') := by
    induction is generalizing m m' with
    | nil => exact h
    | cons i is ih => exact ih (h.setBlock _ _)
  exact hfold (List.finRange 5) (h.note _ _)

theorem removeCartridges : Bare m.removeCartridges m'.removeCartridges :=
  (h.onMemory rfl).note _ _

theorem insert (bytes : List UInt8) (address : Option UInt16) : Bare (m.insert bytes address).2 m' := by
  unfold Machine.insert
  cases Cartridge.parse bytes address with
  | error e => exact h
  | ok c => exact ⟨h.cpu, h.board, h.nmiLine, h.cycle, h.frames, h.typing⟩

theorem writeAll (address : UInt16) (vs : List UInt8) :
    Bare (Bus.writeAll m address vs) (Bus.writeAll m' address vs) := by
  induction vs generalizing m m' address with
  | nil => exact h
  | cons v vs ih => exact ih (h.write address v) _

theorem setEnd (length : Nat) : Bare (Program.setEnd m length).2 (Program.setEnd m' length).2 := by
  have hstart : (Program.peekWord m' 0x002B).1 = (Program.peekWord m 0x002B).1 := by
    rw [peekWord_memory _ (by decide) (by decide), peekWord_memory _ (by decide) (by decide), h.board]
    rfl
  have hend := m.setEnd_memory length
  have hend' := m'.setEnd_memory length
  rw [hstart] at hend'
  rw [hend, hend']
  have hwritten := h.onMemory (f := (·.written (pointing ((Program.peekWord m 0x002B).1 + UInt16.ofNat length))))
    (m.core.board.memory.removeCartridges_written _).symm
  exact hwritten

theorem place (prg : Prg) (run : Bool) : Bare (m.place prg run) (m'.place prg run) := by
  have hend : Bare (Program.setEnd (prg.load m) prg.payload.length).2
      (Program.setEnd (prg.load m') prg.payload.length).2 :=
    (h.writeAll prg.address prg.payload).setEnd prg.payload.length
  unfold Machine.place
  generalize Program.setEnd (prg.load m) prg.payload.length = r at hend ⊢
  generalize Program.setEnd (prg.load m') prg.payload.length = r' at hend ⊢
  cases run with
  | true => exact (hend.note _ _).type runCommand
  | false => exact hend.note _ _

theorem reset : Bare m.reset m'.reset := by
  rw [h.eq]
  exact ⟨rfl, rfl, rfl, rfl, rfl, rfl⟩

variable [Storage σ]

theorem access (a : Board.Access σ) (ha : a.OnBus) : Bare (m.onBoard (·.access a)) (m'.onBoard (·.access a)) :=
  h.onBoard (f := (·.access a)) (g := (·.access a)) (m.core.board.removeCartridges_access ha).symm

theorem load (bytes : List UInt8) (run : Bool) : Bare (m.load bytes false run).2 (m'.load bytes false run).2 := by
  unfold Machine.load
  cases Prg.parse bytes with
  | error e => exact h
  | ok prg => exact h.place prg run

end Bare

def Operation.isInsert : Operation σ → Bool
  | .insert .. => true
  | _ => false

/-- An operation that does not have the processor run instructions. -/
def Operation.Still : Operation σ → Prop
  | .runFrame | .load _ true _ => False
  | _ => True

section Bare

variable [Storage σ] {m m' : Machine σ} (h : Bare m m')

include h

theorem Bare.perform {o : Operation σ} (hbus : o.OnBus) (hstill : o.Still) (hinsert : o.isInsert = false) :
    Bare (m.perform o).2 (m'.perform o).2 := by
  cases o with
  | runFrame => cases hstill
  | insert bytes address => cases hinsert
  | load bytes restart run =>
    cases restart with
    | true => cases hstill
    | false => exact h.load bytes run
  | reset => exact h.reset
  | read address => exact h.read address
  | write address v => exact h.write address v
  | peek address => exact h
  | type text => exact h.type text
  | setBlock block fitted => exact h.setBlock block fitted
  | setExpansion preset =>
    simp only [Machine.perform]
    exact h.setExpansion preset
  | removeCartridges => exact h.removeCartridges
  | attach storage => exact h.access (.drive (.attach storage)) trivial
  | setKey row column pressed => exact h.access (.keyboard (·.set row column pressed)) trivial
  | releaseKeys => exact h.access (.keyboard fun _ => .new) trivial
  | setSwitch s closed => exact h.access (.joystick (·.set s closed)) trivial
  | setRestore pressed => exact h.access (.via1 (·.setCA1 !pressed)) trivial
  | takeFrameDone =>
    let taken (b : Board σ) : Board σ := { b with vic := b.vic.takeFrameDone.2 }
    have htaken := h.onBoard (f := taken) (g := taken) rfl
    exact htaken
  | registers f =>
    have hcpu : { m'.core.cpu with registers := f m'.core.cpu.registers } =
        { m.core.cpu with registers := f m.core.cpu.registers } := by rw [h.cpu]
    exact { h with cpu := hcpu }
  | board a => exact h.access a hbus

theorem Bare.performAll {os : List (Operation σ)} (hos : ∀ o ∈ os, o.OnBus ∧ o.Still) :
    Bare (m.performAll os).2 (m'.performAll (os.filter fun o => !o.isInsert)).2 := by
  induction os generalizing m m' with
  | nil => exact h
  | cons o os ih =>
    have hrest : ∀ o ∈ os, o.OnBus ∧ o.Still := fun o ho => hos o (List.mem_cons_of_mem _ ho)
    obtain ⟨hbus, hstill⟩ := hos o List.mem_cons_self
    cases hinsert : o.isInsert with
    | false =>
      rw [List.filter_cons_of_pos (by rw [hinsert]; rfl)]
      exact ih (h.perform hbus hstill hinsert) hrest
    | true =>
      rw [List.filter_cons_of_neg (by rw [hinsert]; decide)]
      cases o with
      | insert bytes address => exact ih (h.insert bytes address) hrest
      | _ => cases hinsert

omit [Storage σ] in
/-- Without its cartridges a machine reads as one that has none. -/
theorem Bare.read_removeCartridges (a : UInt16) : (m.removeCartridges.read a).1 = (m'.read a).1 := by
  rw [h.eq]
  rfl

end Bare

/-! ### A machine that has no cartridge -/

def HasNoCartridge (m : Machine σ) : Prop := m.core.board.memory.cartridges = Vector.replicate 4 none

theorem HasNoCartridge.removeCartridges {m : Machine σ} (h : m.HasNoCartridge) :
    m.core.board.memory.removeCartridges = m.core.board.memory := by
  rw [Memory.removeCartridges, ← h]

theorem HasNoCartridge.bare {m : Machine σ} (h : m.HasNoCartridge) : Bare m m :=
  ⟨rfl, congrArg (fun memory => { m.core.board with memory }) h.removeCartridges.symm, rfl, rfl, rfl, rfl⟩

variable [Storage σ]

/-- A new machine has none. -/
theorem hasNoCartridge_new {config : Config} {images : RomImages} {m : Machine σ} (h : new config images = .ok m) :
    m.HasNoCartridge := by
  have hwrites : KeptByWrites fun memory => memory.cartridges = Vector.replicate 4 none :=
    fun memory hmemory a v => (memory.write_cartridges a v).trans hmemory
  have hfits (is : List (Fin 5)) (memory : Memory) (f : Fin 5 → Bool) :
      (memory.through (is.map fun i => .fit i.val (f i))).cartridges = memory.cartridges := by
    induction is with
    | nil => rfl
    | cons i is ih => exact ((Memory.fit_others _ i.val (f i)).1).trans ih
  unfold new at h
  cases hroms : images.validate with
  | error e => rw [hroms] at h; cases h
  | ok roms =>
    rw [hroms] at h
    obtain rfl := Except.ok.inj h
    refine memory_reset hwrites ?_
    rw [setExpansion_through]
    exact hfits _ _ _

/-- A dump of 4K or more shows in its window as dumped, less is refused, and nothing else reads differently. With the
cartridges removed a machine reads as it would if none had ever been in: as the machine to which all else has been
done, and where the processor has run, as memory to which all else has been done and the same been written. -/
theorem cartridge_in_window (m : Machine σ) (bytes : List UInt8) (address : Option UInt16) :
    ((∃ a, (m.insert bytes address).1 = .ok a) ↔ 4096 ≤ (Cartridge.bodyOf bytes address).length) ∧
    ((Cartridge.bodyOf bytes address).length < 4096 →
      m.insert bytes address = (.error (.cartridgeTooShort bytes.length), m)) ∧
    (4096 ≤ (Cartridge.bodyOf bytes address).length →
      (m.insert bytes address).1 = .ok (Cartridge.targetOf bytes address) ∧
        Inserted m bytes address (m.insert bytes address).2) ∧
    ∀ (m₀ : Machine σ) (os : List (Operation σ)), m₀.HasNoCartridge → (∀ o ∈ os, o.OnBus) →
      ((∀ o ∈ os, o.Still) → ∀ a, ((m₀.performAll os).2.removeCartridges.read a).1 =
        ((m₀.performAll (os.filter fun o => !o.isInsert)).2.read a).1) ∧
      ∃ history, (m₀.performAll os).2.core.board.memory = m₀.core.board.memory.through history ∧
        (history.filter fun o => !o.isWrite) = mediaOf os ∧
        ∀ a, ((m₀.performAll os).2.removeCartridges.read a).1 =
          (((m₀.performAll os).2.onMemory fun _ =>
            m₀.core.board.memory.through (history.filter fun o => !o.isInsert)).read a).1 := by
  refine ⟨?_, m.insert_short, m.insert_long, fun m₀ os hnone hbus => ⟨fun hstill => ?_, ?_⟩⟩
  · by_cases h : 4096 ≤ (Cartridge.bodyOf bytes address).length
    · exact iff_of_true ⟨_, (m.insert_long h).1⟩ h
    · rw [m.insert_short (Nat.not_le.1 h)]
      exact iff_of_false (fun ⟨_, hok⟩ => by cases hok) h
  · have hbare := hnone.bare.performAll fun o ho => ⟨hbus o ho, hstill o ho⟩
    exact hbare.read_removeCartridges
  · obtain ⟨history, hmemory, hmedia⟩ := m₀.performAll_through hbus
    refine ⟨history, hmemory, hmedia, fun a => ?_⟩
    have hnever : (m₀.performAll os).2.core.board.memory.removeCartridges =
        m₀.core.board.memory.through (history.filter fun o => !o.isInsert) := by
      rw [hmemory, Memory.removeCartridges_through, hnone.removeCartridges]
    rw [← hnever]
    exact read_note _ _ a

/-- A dump of 4K. -/
def halfDump : List UInt8 := .replicate 4096 9

/-- The dump shows twice, and a byte written behind it shows once it has been removed. -/
theorem cartridge_in_window_half :
    zeroed.insert [9, 9, 9] none = (.error (.cartridgeTooShort 3), zeroed) ∧
    (zeroed.insert halfDump (some 0x2000)).1 = .ok 0x2000 ∧
    ((zeroed.insert halfDump (some 0x2000)).2.read (0x2000 + UInt16.ofNat 8191)).1 = 9 ∧
    ((zeroed.performAll [.setBlock 1 true, .insert halfDump (some 0x2000), .write 0x2005 42]
      ).2.removeCartridges.read 0x2005).1 = 42 := by
  have hlength : halfDump.length = 4096 := List.length_replicate
  have hplain : ¬Cartridge.Headed halfDump (some 0x2000) := by
    rintro (h | h | h)
    · cases h
    · omega
    · omega
  have hbody : Cartridge.bodyOf halfDump (some 0x2000) = halfDump := if_neg hplain
  have htarget : Cartridge.targetOf halfDump (some 0x2000) = 0x2000 := if_neg hplain
  obtain ⟨-, hshort, -⟩ := zeroed.cartridge_in_window [9, 9, 9] none
  obtain ⟨-, -, hlong, hnever⟩ := zeroed.cartridge_in_window halfDump (some 0x2000)
  obtain ⟨haddress, hinserted⟩ := hlong (by rw [hbody]; omega)
  refine ⟨hshort (by decide), haddress.trans (congrArg Except.ok htarget), ?_, ?_⟩
  · have hlast := hinserted.window 8191 (by decide)
    have hused : Cartridge.usedOf halfDump = 4096 := if_neg (by omega)
    rw [htarget] at hlast
    dsimp only at hlast
    rw [hbody, hused, hlength, halfDump, List.getElem?_replicate_of_lt (by decide)] at hlast
    exact (Option.some.inj hlast).symm
  · let os : List (Operation Disk) := [.setBlock 1 true, .insert halfDump (some 0x2000), .write 0x2005 42]
    have hall : ∀ o ∈ os, o.OnBus ∧ o.Still := by simp [os, Operation.OnBus, Operation.Still]
    obtain ⟨hstill, -⟩ := hnever zeroed os rfl fun o ho => (hall o ho).1
    rw [hstill fun o ho => (hall o ho).2]
    have hfrom : Place.start Place.firstSlot ≤ UInt16.toNat 0x2005 := by decide
    have hto : UInt16.toNat 0x2005 < Place.start Place.firstSlot + 0x2000 := by decide
    rw [read_memory _ (by decide)]
    exact Memory.after_window ⟨.zero _, .zero _, .zero _⟩ [.write 0x2005 42, .fit 1 true] hfrom hto
      (Memory.ofAddress_window hfrom hto)

end Machine
end Vic20
