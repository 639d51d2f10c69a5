import Vic20.Machine.Media
import Vic20.Proofs.Machine.Interrupts
import Vic20.Proofs.Memory.Written
import Vic20.Proofs.Text.Utf8
import Vic20.Proofs.Word
import Vic20.Storage.Disk

/-! Programs put into memory in place. Each address gets its own byte of the program, and then the pointers to the end
of the program are set. No chip takes notice, as long as no byte is for one. -/

namespace Vic20

/-- The address is neither the video chip's nor an adapter's. -/
def OutsideChips (address : UInt16) : Prop := address < 0x9000 ∨ 0x9400 ≤ address

instance (address : UInt16) : Decidable (OutsideChips address) := inferInstanceAs (Decidable (_ ∨ _))

theorem OutsideChips.chip {address : UInt16} (h : OutsideChips address) : Board.Chip.ofAddress address = .memory :=
  if_pos h

namespace Machine

variable {σ : Type} (m : Machine σ)

/-! ### Memory and nothing else -/

/-- Changes memory. -/
def onMemory (f : Memory → Memory) : Machine σ := m.onBoard fun b => { b with memory := f b.memory }

theorem read_memory {a : UInt16} (h : OutsideChips a) : m.read a = (m.core.board.memory.read a, m) := by
  obtain ⟨⟨cpu, board, line⟩, cycle, frames, typing, journal⟩ := m
  simp only [read, Board.read_memory board h.chip]

theorem write_memory {a : UInt16} (h : OutsideChips a) (v : UInt8) : m.write a v = m.onMemory (·.write a v) := by
  obtain ⟨⟨cpu, ⟨memory, vic, via1, via2, keyboard, joystick, drive⟩, line⟩, cycle, frames, typing, journal⟩ := m
  simp only [write, onMemory, onBoard, Board.write, h.chip]

/-- An address whose memory reads the same reads the same. -/
theorem read_onMemory {f : Memory → Memory} {a : UInt16}
    (h : (f m.core.board.memory).read a = m.core.board.memory.read a) :
    ((m.onMemory f).read a).1 = (m.read a).1 := by
  obtain ⟨⟨cpu, ⟨memory, vic, via1, via2, keyboard, joystick, drive⟩, line⟩, cycle, frames, typing, journal⟩ := m
  simp only [onMemory, onBoard, read, Board.read]
  cases Board.Chip.ofAddress a with
  | memory => exact h
  | vic | via1 | via2 => rfl

theorem onMemory_written_append (later earlier : List (UInt16 × UInt8)) :
    m.onMemory (·.written (later ++ earlier)) =
      (m.onMemory (·.written earlier)).onMemory (·.written later) := by
  simp only [onMemory, onBoard, Memory.written_append]

/-- The machine with other text to be typed and another journal. -/
def retold (typing : List UInt8) (journal : Array Event) : Machine σ := { m with typing, journal }

theorem read_retold (typing : List UInt8) (journal : Array Event) (a : UInt16) :
    ((m.retold typing journal).read a).1 = (m.read a).1 := by
  obtain ⟨core, cycle, frames, typing', journal'⟩ := m
  rfl

theorem writeAll_memory (address : UInt16) (vs : List UInt8)
    (h : ∀ i < vs.length, OutsideChips (address + UInt16.ofNat i)) :
    Bus.writeAll m address vs = m.onMemory (·.written (Memory.placing address vs)) := by
  induction vs generalizing m address with
  | nil => rfl
  | cons v vs ih =>
    have hfirst : OutsideChips address := UInt16.add_zero address ▸ h 0 (Nat.succ_pos _)
    have hrest : ∀ i < vs.length, OutsideChips (address + 1 + UInt16.ofNat i) := by
      intro i hi
      have hnext := h (i + 1) (Nat.succ_lt_succ hi)
      rwa [UInt16.ofNat_add, UInt16.add_comm (UInt16.ofNat i), ← UInt16.add_assoc] at hnext
    have hwrite : Bus.write m address v = m.onMemory (·.write address v) := m.write_memory hfirst v
    rw [Bus.writeAll, ih _ _ hrest, hwrite]
    simp only [Memory.placing, Memory.written_append]
    rfl

/-- A payload that spares the chips has no two bytes for one address. -/
theorem length_lt_of_outside {address : UInt16} {vs : List UInt8}
    (h : ∀ i < vs.length, OutsideChips (address + UInt16.ofNat i)) : vs.length < 0x10000 := by
  by_contra hlong
  have hat := h (0x9000 - address).toNat (by have := (0x9000 - address).toNat_lt; omega)
  rw [UInt16.ofNat_toNat, UInt16.add_comm, UInt16.sub_add_cancel] at hat
  exact absurd hat (by unfold OutsideChips; decide)

/-! ### The pointers -/

/-- The addresses of the pointers that are set. -/
def pointerBytes : List UInt16 := [0x2D, 0x2E, 0x2F, 0x30, 0x31, 0x32, 0xAC, 0xAD, 0xAE, 0xAF]

/-- The writes that set the pointers, the newest first. -/
def pointing (stop : UInt16) : List (UInt16 × UInt8) :=
  [(0xAF, highByte stop), (0xAE, lowByte stop), (0x32, highByte stop), (0x31, lowByte stop), (0x30, highByte stop),
    (0x2F, lowByte stop), (0x2E, highByte stop), (0x2D, lowByte stop), (0xAD, 0), (0xAC, 0)]

theorem pokeWord_memory {address : UInt16} (w : UInt16) (h : OutsideChips address)
    (h' : OutsideChips (address + 1)) :
    Program.pokeWord m address w = m.onMemory (·.written [(address + 1, highByte w), (address, lowByte w)]) := by
  refine m.writeAll_memory address (wordBytes w) fun i hi => ?_
  obtain rfl | rfl : i = 0 ∨ i = 1 := by simp only [wordBytes, List.length_cons, List.length_nil] at hi; omega
  · exact (UInt16.add_zero address).symm ▸ h
  · exact h'

theorem peekWord_memory {address : UInt16} (h : OutsideChips address) (h' : OutsideChips (address + 1)) :
    Program.peekWord m address =
      (word (m.core.board.memory.read address) (m.core.board.memory.read (address + 1)), m) := by
  have hread {a : UInt16} (ha : OutsideChips a) : Bus.read m a = (m.core.board.memory.read a, m) := m.read_memory ha
  simp only [Program.peekWord, hread h, hread h']

theorem setEnd_memory (length : Nat) :
    let stop := (Program.peekWord m 0x002B).1 + UInt16.ofNat length
    Program.setEnd m length = (stop, m.onMemory (·.written (pointing stop))) := by
  have hpeek : Program.peekWord m Program.startPointer = ((Program.peekWord m 0x002B).1, m) := by
    rw [Program.startPointer, m.peekWord_memory (by decide) (by decide)]
  have hpoke (m : Machine σ) (w : UInt16) {address : UInt16}
      (h : OutsideChips address ∧ OutsideChips (address + 1)) :
      Program.pokeWord m address w =
        m.onMemory (·.written [(address + 1, highByte w), (address, lowByte w)]) :=
    m.pokeWord_memory w h.1 h.2
  simp only [Program.setEnd, hpeek, Program.endPointers, List.foldl_cons, List.foldl_nil, Program.scrollPointer,
    Program.loadEndPointer]
  rw [hpoke _ _ (by decide), hpoke _ _ (by decide), hpoke _ _ (by decide), hpoke _ _ (by decide),
    hpoke _ _ (by decide)]
  simp only [← onMemory_written_append]
  rfl

/-! ### What is read with a program in memory -/

/-- What an address reads with its own byte of a payload written to it, or else what it reads already. -/
def shownWith (address : UInt16) (payload : List UInt8) (a : UInt16) : UInt8 :=
  match payload[(a - address).toNat]? with
  | some v => ((m.write a v).read a).1
  | none => (m.read a).1

/-- The end of the program: the word at $2B once the payload is in place, and the length of the payload. -/
def stopWith (address : UInt16) (payload : List UInt8) : UInt16 :=
  word (m.shownWith address payload 0x2B) (m.shownWith address payload 0x2C) + UInt16.ofNat payload.length

/-- A machine with a payload put into memory: the pointers are set, every other address shows its own byte of the
payload or what it showed before, and nothing but memory and the text to be typed has changed. -/
structure Loaded (m : Machine σ) (address : UInt16) (payload : List UInt8) (run : Bool) (m' : Machine σ) : Prop where
  ends : ∀ pointer ∈ [0x2D, 0x2F, 0x31, 0xAE], (Program.peekWord m' pointer).1 = m.stopWith address payload
  scroll : (Program.peekWord m' 0xAC).1 = 0
  others : ∀ a ∉ pointerBytes, (m'.read a).1 = m.shownWith address payload a
  fixed : ∀ a, m.core.board.memory.Fixed a → (m'.read a).1 = (m.read a).1
  untouched : ∃ memory journal, m' = { m with
    core := { m.core with board := { m.core.board with memory } }
    typing := m.typing ++ if run then [0x52, 0x55, 0x4E, 0x0D] else []
    journal }

theorem runCommand_eq : runCommand = [0x52, 0x55, 0x4E, 0x0D] := by
  have htext : "RUN\r" = String.ofList ['R', 'U', 'N', '\r'] := rfl
  rw [runCommand, htext, Utf8.bytes_ofList]
  decide

section Payload

variable {address : UInt16} {payload : List UInt8}
  (h : ∀ i < payload.length, OutsideChips (address + UInt16.ofNat i))

include h

theorem outside_of_covered {a : UInt16} {v : UInt8} (ha : payload[(a - address).toNat]? = some v) :
    OutsideChips a := by
  have hat := h _ (List.getElem?_eq_some_iff.1 ha).1
  rwa [UInt16.ofNat_toNat, UInt16.add_comm, UInt16.sub_add_cancel] at hat

theorem read_placed (a : UInt16) :
    ((m.onMemory (·.written (Memory.placing address payload))).read a).1 = m.shownWith address payload a := by
  have hlookup := Memory.lookup_placing address a (Nat.le_of_lt (length_lt_of_outside h))
  have hread := m.core.board.memory.read_written (Memory.placing address payload) a
  rw [hlookup] at hread
  unfold shownWith
  cases hbyte : payload[(a - address).toNat]? with
  | none =>
    rw [hbyte] at hread
    exact m.read_onMemory hread
  | some v =>
    rw [hbyte] at hread
    have hout := outside_of_covered h hbyte
    dsimp only
    rw [read_memory _ hout, m.write_memory hout, read_memory _ hout]
    exact hread

theorem place_eq (run : Bool) :
    ∃ journal, m.place ⟨address, payload⟩ run =
      ((m.onMemory (·.written (Memory.placing address payload))).onMemory
        (·.written (pointing (m.stopWith address payload)))).retold
        (m.typing ++ if run then [0x52, 0x55, 0x4E, 0x0D] else []) journal := by
  have hload : (⟨address, payload⟩ : Prg).load m = m.onMemory (·.written (Memory.placing address payload)) :=
    m.writeAll_memory address payload h
  have hstop : (Program.peekWord (m.onMemory (·.written (Memory.placing address payload))) 0x002B).1 +
      UInt16.ofNat payload.length = m.stopWith address payload := by
    rw [peekWord_memory _ (by decide) (by decide), stopWith, ← m.read_placed h, ← m.read_placed h,
      read_memory _ (by decide), read_memory _ (by decide)]
    rfl
  have hend := setEnd_memory (m.onMemory (·.written (Memory.placing address payload))) payload.length
  rw [hstop] at hend
  unfold place
  simp only [hload, hend]
  cases run with
  | true =>
    simp only [runCommand_eq, if_true]
    exact ⟨_, rfl⟩
  | false =>
    simp only [Bool.false_eq_true, if_false, List.append_nil]
    exact ⟨_, rfl⟩

end Payload

theorem lookup_pointing (stop a : UInt16) : ((pointing stop).lookup a).isSome ↔ a ∈ pointerBytes := by
  simp only [List.lookup_isSome_iff, pointing, pointerBytes, List.mem_cons, beq_iff_eq, exists_eq_or_imp,
    List.not_mem_nil, or_false, exists_eq_left]
  -- The pointers are listed in order, and the writes as they come.
  tauto

/-- The pointers read as they have been set, and all else as before. -/
theorem read_pointing (memory : Memory) (stop a : UInt16) :
    (memory.written (pointing stop)).read a = ((pointing stop).lookup a).getD (memory.read a) := by
  rw [Memory.read_written]
  cases hbyte : (pointing stop).lookup a with
  | none => rfl
  | some v =>
    have hpointer : a ∈ pointerBytes := (lookup_pointing stop a).1 (Option.isSome_of_eq_some hbyte)
    have hlow : pointerBytes.all (· < 0x0400) = true := rfl
    exact Memory.read_write_low memory (of_decide_eq_true (List.all_eq_true.1 hlow a hpointer)) v

theorem read_pointing_of_notMem (memory : Memory) (stop : UInt16) {a : UInt16} (h : a ∉ pointerBytes) :
    (memory.written (pointing stop)).read a = memory.read a := by
  rw [← lookup_pointing stop, Option.not_isSome_iff_eq_none] at h
  rw [read_pointing, h, Option.getD_none]

/-- The words at the pointers once they have been set. -/
theorem peekWord_pointing {memory : Memory} {stop : UInt16}
    (hm : m.core.board.memory = memory.written (pointing stop)) :
    (∀ pointer ∈ [0x2D, 0x2F, 0x31, 0xAE], (Program.peekWord m pointer).1 = stop) ∧
      (Program.peekWord m 0xAC).1 = 0 := by
  have hword {pointer low high : _} (h : OutsideChips pointer ∧ OutsideChips (pointer + 1))
      (hlow : (pointing stop).lookup pointer = some low) (hhigh : (pointing stop).lookup (pointer + 1) = some high) :
      (Program.peekWord m pointer).1 = word low high := by
    rw [m.peekWord_memory h.1 h.2, hm, read_pointing, read_pointing, hlow, hhigh]
    rfl
  constructor
  · intro pointer hpointer
    rw [← word_bytes stop]
    simp only [List.mem_cons, List.not_mem_nil, or_false] at hpointer
    obtain rfl | rfl | rfl | rfl := hpointer <;> exact hword (by decide) rfl rfl
  · have hzero : word 0 0 = 0 := by decide
    rw [← hzero]
    exact hword (by decide) rfl rfl

theorem Loaded.place {address : UInt16} {payload : List UInt8} (run : Bool)
    (h : ∀ i < payload.length, OutsideChips (address + UInt16.ofNat i)) :
    Loaded m address payload run (m.place ⟨address, payload⟩ run) := by
  obtain ⟨journal, hplace⟩ := m.place_eq h run
  have hmemory : (m.place ⟨address, payload⟩ run).core.board.memory =
      (m.core.board.memory.written (Memory.placing address payload)).written
        (pointing (m.stopWith address payload)) := by
    rw [hplace]
    rfl
  have hwords := peekWord_pointing _ hmemory
  refine ⟨hwords.1, hwords.2, fun a ha => ?_, fun a ha => ?_, ?_⟩
  · rw [hplace, read_retold, read_onMemory, m.read_placed h]
    exact read_pointing_of_notMem _ _ ha
  · rw [hplace, read_retold, ← onMemory_written_append, read_onMemory]
    exact Memory.read_written_fixed _ ha _
  · rw [hplace]
    exact ⟨_, _, rfl⟩

variable [Storage σ]

/-- A program of at least one byte is put into memory in place: its address is given, the pointers are moved past
it, and every other address has its own byte or what it had. Fewer bytes are refused, and the machine stays as it is. -/
theorem loaded_in_place (m : Machine σ) (bytes : List UInt8) (run : Bool) :
    ((∃ e, (m.load bytes false run).1 = .error e) ↔ bytes.length < 3) ∧
    (bytes.length < 3 → m.load bytes false run = (.error (.prgTooShort bytes.length), m)) ∧
    ∀ low high payload, bytes = low :: high :: payload → payload ≠ [] →
      (∀ i < payload.length, OutsideChips (word low high + UInt16.ofNat i)) →
      (m.load bytes false run).1 = .ok (word low high) ∧
        Loaded m (word low high) payload run (m.load bytes false run).2 := by
  rcases bytes with - | ⟨low, - | ⟨high, - | ⟨v, vs⟩⟩⟩
  · have hload : m.load [] false run = (.error (.prgTooShort 0), m) := rfl
    simp [hload]
  · have hload : m.load [low] false run = (.error (.prgTooShort 1), m) := rfl
    simp [hload]
  · have hload : m.load [low, high] false run = (.error (.prgTooShort 2), m) := rfl
    refine ⟨by simp [hload], fun _ => hload, ?_⟩
    rintro _ _ payload ⟨⟩ hpayload
    exact absurd rfl hpayload
  · have hload : m.load (low :: high :: v :: vs) false run =
        (.ok (word low high), m.place ⟨word low high, v :: vs⟩ run) := rfl
    rw [hload]
    refine ⟨by simp, by simp, ?_⟩
    rintro low' high' payload hbytes - houtside
    obtain ⟨rfl, rfl, rfl⟩ : low = low' ∧ high = high' ∧ v :: vs = payload := by simpa using hbytes
    exact ⟨rfl, .place m run houtside⟩

/-- A machine with zeros in memory. -/
def zeroed : Machine Disk :=
  { core := { cpu := .new, board := { memory := .new ⟨.zero _, .zero _, .zero _⟩, drive := { device := 8 } } } }

/-- A program of five bytes from $2A on brings the word at $2B with it, and the pointers are set over its last two. -/
theorem loaded_in_place_over_pointers :
    zeroed.load [0x2A] false true = (.error (.prgTooShort 1), zeroed) ∧
      (zeroed.load [0x2A, 0x00, 9, 0x01, 0x10, 7, 7] false true).1 = .ok 0x002A ∧
      Loaded zeroed 0x002A [9, 0x01, 0x10, 7, 7] true (zeroed.load [0x2A, 0x00, 9, 0x01, 0x10, 7, 7] false true).2 ∧
      zeroed.stopWith 0x002A [9, 0x01, 0x10, 7, 7] = 0x1006 := by
  obtain ⟨-, hshort, -⟩ := loaded_in_place zeroed [0x2A] true
  obtain ⟨-, -, hloaded⟩ := loaded_in_place zeroed [0x2A, 0x00, 9, 0x01, 0x10, 7, 7] true
  obtain ⟨haddress, hmachine⟩ := hloaded _ _ _ rfl (List.cons_ne_nil _ _) (by decide)
  exact ⟨hshort (by decide), haddress, hmachine, rfl⟩

end Machine
end Vic20
