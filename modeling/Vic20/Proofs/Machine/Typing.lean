import Vic20.Proofs.Machine.Waiting
import Vic20.Proofs.Memory.Places
import Vic20.Storage.Disk

/-! Text on its way into the keyboard buffer. After a frame as much of it as there is room for goes behind what is in
the buffer. So where the guest takes characters from the front only, it takes them in the order they were typed in,
and each of them once. -/

namespace Vic20

/-! ### Low memory -/

namespace Memory

theorem toNat_low {n : Nat} (h : n < 0x400) : (UInt16.ofNat n).toNat = n :=
  UInt16.toNat_ofNat_of_lt' (Nat.lt_trans h (by decide))

theorem ofAddress_low {n : Nat} (h : n < 0x400) : Place.ofAddress (UInt16.ofNat n) = .low ⟨n, h⟩ := by
  have hn := toNat_low h
  unfold Place.ofAddress Place.ofNat
  rw [dif_pos (by omega)]
  simp only [hn]

end Memory

namespace Board

variable {σ : Type}

/-- The board with other contents of low memory. -/
def withLow (b : Board σ) (low : Block 0x400) : Board σ := { b with memory := { b.memory with low } }

theorem chip_low {n : Nat} (h : n < 0x400) : Chip.ofAddress (UInt16.ofNat n) = .memory := by
  refine if_pos (.inl ?_)
  rw [UInt16.lt_iff_toNat_lt, Memory.toNat_low h]
  exact Nat.lt_trans h (by decide)

theorem read_low (b : Board σ) {n : Nat} (h : n < 0x400) :
    b.read (UInt16.ofNat n) = (b.memory.low.read ⟨n, h⟩, b) := by
  rw [read_memory b (chip_low h), Memory.read, Memory.ofAddress_low h]

theorem write_low (b : Board σ) {n : Nat} (h : n < 0x400) (v : UInt8) :
    b.write (UInt16.ofNat n) v = b.withLow (b.memory.low.write ⟨n, h⟩ v) := by
  unfold write
  rw [chip_low h]
  unfold Memory.write
  rw [Memory.ofAddress_low h]
  rfl

/-! ### The buffer -/

/-- How many characters are in the keyboard buffer. -/
def fill (b : Board σ) : UInt8 := b.memory.low.read ⟨0xC6, by decide⟩

/-- How many characters the keyboard buffer is for. -/
def room (b : Board σ) : UInt8 := b.memory.low.read ⟨0x289, by decide⟩

/-- The characters in the keyboard buffer, front first. -/
def buffered (b : Board σ) : List UInt8 := (b.memory.low.toList.drop 0x277).take b.fill.toNat

/-- A text has been put behind `n` characters in the buffer, and counted, and nothing else has been written. -/
structure Buffers (low : Block 0x400) (n : Nat) (text : List UInt8) (low' : Block 0x400) : Prop where
  count : (low'.read ⟨0xC6, by decide⟩).toNat = n + text.length
  chars : ∀ i < text.length, low'[0x277 + n + i]? = text[i]?
  others : ∀ a, a ≠ 0xC6 → ¬(0x277 + n ≤ a ∧ a < 0x277 + n + text.length) → low'[a]? = low[a]?

namespace Buffers

variable {low low' low'' : Block 0x400} {n : Nat} {text more : List UInt8}

theorem nil (b : Board σ) : Buffers b.memory.low b.fill.toNat [] b.memory.low where
  count := rfl
  chars := by simp
  others := by simp

/-- One text and then another is both of them. -/
theorem append (h : Buffers low n text low') (h' : Buffers low' (n + text.length) more low'') :
    Buffers low n (text ++ more) low'' where
  count := by rw [h'.count, List.length_append, Nat.add_assoc]
  chars i hi := by
    rw [List.length_append] at hi
    by_cases htext : i < text.length
    · rw [h'.others _ (by omega) (by omega), h.chars i htext, List.getElem?_append_left htext]
    · have hmore := h'.chars (i - text.length) (by omega)
      rw [List.getElem?_append_right (by omega), ← hmore]
      congr 1
      omega
  others a ha hout := by
    rw [List.length_append] at hout
    rw [h'.others a ha (by omega), h.others a ha (by omega)]

/-- What is in the buffer is what was in it and then the text. -/
theorem take_eq (h : Buffers low n text low') (hn : n < 0x100) :
    (low'.toList.drop 0x277).take (n + text.length) = (low.toList.drop 0x277).take n ++ text := by
  apply List.ext_getElem?
  intro i
  have hlow (low : Block 0x400) (n : Nat) :
      ((low.toList.drop 0x277).take n)[i]? = if i < n then low[0x277 + i]? else none := by
    rw [List.getElem?_take, List.getElem?_drop, Vector.getElem?_toList]
  have hlength : ((low.toList.drop 0x277).take n).length = n := by
    simp
    omega
  rw [hlow, List.getElem?_append, hlength, hlow]
  by_cases hi : i < n
  · rw [if_pos (by omega), if_pos hi, if_pos hi]
    exact h.others _ (by omega) (by omega)
  · rw [if_neg hi]
    by_cases htext : i - n < text.length
    · have hchar := h.chars (i - n) htext
      rw [if_pos (by omega), ← hchar]
      congr 1
      omega
    · rw [if_neg (by omega), List.getElem?_eq_none (by omega)]

end Buffers

/-- With a character at the end of the buffer. -/
def pushed (b : Board σ) (c : UInt8) : Board σ :=
  (b.write (keyboardBuffer + b.fill.toUInt16) c).write keyboardCount (b.fill + 1)

/-- One round of the loop. -/
theorem type_cons (b : Board σ) (c : UInt8) (text : List UInt8) :
    b.type (c :: text) = if b.room ≤ b.fill then (c :: text, b) else (b.pushed c).type text := by
  rw [type, show keyboardCount = UInt16.ofNat 0xC6 from rfl, show keyboardCapacity = UInt16.ofNat 0x289 from rfl]
  simp only [read_low b (show 0xC6 < 0x400 by decide), read_low b (show 0x289 < 0x400 by decide)]
  rfl

theorem pushed_eq (b : Board σ) (c : UInt8) (h : 0x277 + b.fill.toNat < 0x400) :
    b.pushed c = b.withLow ((b.memory.low.write ⟨0x277 + b.fill.toNat, h⟩ c).write ⟨0xC6, by decide⟩ (b.fill + 1)) := by
  have haddress : keyboardBuffer + b.fill.toUInt16 = UInt16.ofNat (0x277 + b.fill.toNat) := by
    rw [UInt16.ofNat_add, UInt16.ofNat_uInt8ToNat]
    rfl
  rw [pushed, haddress, write_low b h, show keyboardCount = UInt16.ofNat 0xC6 from rfl, write_low _ (by decide)]
  rfl

theorem room_pushed (b : Board σ) (c : UInt8) (h : b.fill.toNat < 18) : (b.pushed c).room = b.room := by
  have hbuffer : (⟨0x277 + b.fill.toNat, by omega⟩ : Fin 0x400) ≠ ⟨0x289, by decide⟩ := by
    rw [ne_eq, Fin.mk.injEq]
    omega
  rw [pushed_eq b c (by omega)]
  unfold room withLow
  rw [Memory.read_write_block, if_neg (by decide), Memory.read_write_block, if_neg hbuffer]

theorem buffers_pushed (b : Board σ) (c : UInt8) (h : b.fill.toNat < 18) :
    Buffers b.memory.low b.fill.toNat [c] (b.pushed c).memory.low := by
  rw [pushed_eq b c (by omega)]
  constructor
  · change (Block.read (Block.write _ _ _) _).toNat = _
    rw [Memory.read_write_block, if_pos rfl, UInt8.toNat_add]
    simp
    omega
  · intro i hi
    obtain rfl : i = 0 := by simpa using hi
    simp [withLow, Block.write, Vector.getElem?_set]
    omega
  · intro a ha hout
    rw [List.length_singleton] at hout
    simp only [withLow, Block.write, Vector.getElem?_set]
    rw [if_neg (Ne.symm ha), if_neg (by omega)]

/-- As much of a text is typed as there is room for. -/
theorem type_buffers (b : Board σ) (text : List UInt8) (h : b.room.toNat ≤ 18) :
    let k := min text.length (b.room.toNat - b.fill.toNat)
    ∃ low, b.type text = (text.drop k, b.withLow low) ∧
      Buffers b.memory.low b.fill.toNat (text.take k) low := by
  induction text generalizing b with
  | nil => exact ⟨b.memory.low, rfl, .nil b⟩
  | cons c text ih =>
    intro k
    by_cases hroom : b.room ≤ b.fill
    · have hk : k = 0 := by
        have hle := UInt8.le_iff_toNat_le.1 hroom
        simp only [k]
        omega
      rw [hk, type_cons, if_pos hroom]
      exact ⟨b.memory.low, rfl, .nil b⟩
    · have hlt : b.fill.toNat < b.room.toNat := Nat.not_le.1 fun hle => hroom (UInt8.le_iff_toNat_le.2 hle)
      have hpushed := buffers_pushed b c (by omega)
      have hsame := room_pushed b c (by omega)
      have hfill : (b.pushed c).fill.toNat = b.fill.toNat + 1 := hpushed.count
      obtain ⟨low, htype, hbuffers⟩ := ih (b.pushed c) (by rw [hsame]; exact h)
      rw [hsame, hfill] at htype hbuffers
      have hk : k = min text.length (b.room.toNat - (b.fill.toNat + 1)) + 1 := by
        simp only [k, List.length_cons]
        omega
      refine ⟨low, ?_, ?_⟩
      · rw [type_cons, if_neg hroom, htype, hk, List.drop_succ_cons, pushed_eq b c (by omega)]
        rfl
      · rw [hk, List.take_succ_cons]
        exact hpushed.append hbuffers

/-- What is typed goes behind what is in the buffer, and the rest waits. -/
theorem buffered_type (b : Board σ) (text : List UInt8) (h : b.room.toNat ≤ 18) :
    (b.type text).2.buffered ++ (b.type text).1 = b.buffered ++ text := by
  obtain ⟨low, htype, hbuffers⟩ := type_buffers b text h
  have hfill := hbuffers.count
  have hchars : (b.withLow low).buffered =
      b.buffered ++ text.take (min text.length (b.room.toNat - b.fill.toNat)) := by
    have htake := hbuffers.take_eq b.fill.toNat_lt
    rw [← hfill] at htake
    exact htake
  rw [htype, hchars, List.append_assoc, List.take_append_drop]

end Board

/-! ### Frames -/

namespace Machine

variable {σ : Type} [Storage σ]

theorem step_typing (m : Machine σ) : m.step.2.typing = m.typing := by
  obtain ⟨drive, journal, h⟩ := step_snd m
  rw [h]

theorem runSteps_typing (m : Machine σ) (fuel run : Nat) : (m.runSteps fuel run).2.typing = m.typing := by
  induction fuel generalizing m run with
  | zero => rfl
  | succ fuel ih =>
    unfold runSteps
    split
    · rfl
    · exact (ih m.step.2 _).trans (step_typing m)

/-- A frame is its steps. Then text is typed. -/
theorem runFrame_eq (m : Machine σ) :
    let r := m.runSteps frameFuel 0
    let typed := r.2.core.board.type m.typing
    m.runFrame = (r.1, { r.2 with
      core := { r.2.core with board := typed.2 }
      cycle := r.2.cycle + UInt32.ofNat r.1
      frames := r.2.frames + 1
      typing := typed.1 }) := by
  rw [← runSteps_typing m frameFuel 0]
  rfl

/-- What is typed and what the guest takes, from one machine to another. The guest takes characters from the front
of the buffer only, in a frame or between two. -/
inductive Session (m₀ : Machine σ) : (typed taken : List UInt8) → Machine σ → Prop
  | start : Session m₀ [] [] m₀
  | type {typed taken : List UInt8} {m : Machine σ} (h : Session m₀ typed taken m) (text : List UInt8) :
    Session m₀ (typed ++ text) taken (m.type text)
  | frame {typed taken more : List UInt8} {m : Machine σ} (h : Session m₀ typed taken m)
    (hroom : (m.runSteps frameFuel 0).2.core.board.room ≤ 18)
    (htaken : m.core.board.buffered = more ++ (m.runSteps frameFuel 0).2.core.board.buffered) :
    Session m₀ typed (taken ++ more) m.runFrame.2
  | between {typed taken more : List UInt8} {m m' : Machine σ} (h : Session m₀ typed taken m)
    (htyping : m'.typing = m.typing) (htaken : m.core.board.buffered = more ++ m'.core.board.buffered) :
    Session m₀ typed (taken ++ more) m'

/-- No character gets lost, and none comes twice. -/
theorem Session.conserved {m₀ m : Machine σ} {typed taken : List UInt8} (h : Session m₀ typed taken m) :
    m₀.core.board.buffered ++ m₀.typing ++ typed = taken ++ m.core.board.buffered ++ m.typing := by
  induction h with
  | start => simp
  | type h text ih =>
    rw [← List.append_assoc, ih, List.append_assoc _ _ text]
    rfl
  | @frame typed taken more m h hroom htaken ih =>
    have hbuffered : m.runFrame.2.core.board.buffered ++ m.runFrame.2.typing =
        (m.runSteps frameFuel 0).2.core.board.buffered ++ m.typing := by
      rw [runFrame_eq]
      exact Board.buffered_type _ _ (UInt8.le_iff_toNat_le.1 hroom)
    rw [ih, htaken, List.append_assoc _ _ m.runFrame.2.typing, hbuffered]
    simp
  | between h htyping htaken ih => rw [ih, htyping, htaken, List.append_assoc _ _ (Board.buffered _)]

/-- A guest that waits takes nothing. -/
theorem Session.waits {m₀ m : Machine σ} {typed taken : List UInt8}
    (h : Session m₀ typed taken m) (hwaits : Core.Waits m.core.board.memory m.core) (hroom : m.core.board.room ≤ 18) :
    Session m₀ typed taken m.runFrame.2 := by
  have hmemory : (m.runSteps frameFuel 0).2.core.board.memory = m.core.board.memory :=
    (hwaits.runSteps frameFuel 0).memory
  rw [← List.append_nil taken]
  refine h.frame ?_ ?_
  · rw [Board.room, hmemory]
    exact hroom
  · rw [List.nil_append, Board.buffered, Board.buffered, Board.fill, Board.fill, hmemory]

/-- Text is typed in order, and each character once. After a frame as much of it as there is room for goes behind what
is in the buffer and is counted, and nothing else changes. So the characters that the guest takes, those in the buffer
and those that wait are together the characters that were typed. -/
theorem typed_in_order :
    (∀ (b : Board σ) (text : List UInt8), b.room.toNat ≤ 18 →
      let k := min text.length (b.room.toNat - b.fill.toNat)
      ∃ low, b.type text = (text.drop k, b.withLow low) ∧
        Board.Buffers b.memory.low b.fill.toNat (text.take k) low) ∧
    (∀ m : Machine σ,
      let r := m.runSteps frameFuel 0
      let typed := r.2.core.board.type m.typing
      m.runFrame = (r.1, { r.2 with
        core := { r.2.core with board := typed.2 }
        cycle := r.2.cycle + UInt32.ofNat r.1
        frames := r.2.frames + 1
        typing := typed.1 })) ∧
    ∀ (m₀ m : Machine σ) (typed taken : List UInt8), Session m₀ typed taken m →
      m₀.core.board.buffered ++ m₀.typing ++ typed = taken ++ m.core.board.buffered ++ m.typing :=
  ⟨Board.type_buffers, runFrame_eq, fun _ _ _ _ h => h.conserved⟩

/-- A machine with room for three characters, at a jump to itself. -/
def waiting : Machine Disk :=
  { core := {
      cpu := { registers := { pc := 0x1000 } }
      board := {
        memory := { Memory.new ⟨.zero _, .zero _, .zero _⟩ with
          low := Vector.ofFn fun i => if i.val = 0x289 then 3 else 0
          high := Vector.ofFn fun i => if i.val = 0 then 0x4C else if i.val = 2 then 0x10 else 0 }
        drive := { device := 8, storage := some {} } } } }

theorem waits_waiting : Core.Waits waiting.core.board.memory waiting.core := by
  have hhigh (i : Fin 0x1000) : waiting.core.board.memory.high.read i =
      if i.val = 0 then 0x4C else if i.val = 2 then 0x10 else 0 := Vector.getElem_ofFn i.isLt
  exact ⟨rfl, ⟨hhigh ⟨0, by decide⟩, hhigh ⟨1, by decide⟩, hhigh ⟨2, by decide⟩⟩, rfl, rfl, rfl⟩

theorem typed_in_order_waiting :
    let typing := waiting.type [0x41, 0x42, 0x43, 0x44, 0x45]
    waiting.core.board.room.toNat ≤ 18 ∧
      (∃ low, waiting.core.board.type typing.typing = ([0x44, 0x45], waiting.core.board.withLow low) ∧
        Board.Buffers waiting.core.board.memory.low 0 [0x41, 0x42, 0x43] low) ∧
      Session waiting typing.typing [] typing.runFrame.2 ∧
      typing.runFrame.2.core.board.buffered ++ typing.runFrame.2.typing = typing.typing := by
  intro typing
  have hlow (i : Fin 0x400) : waiting.core.board.memory.low.read i = if i.val = 0x289 then 3 else 0 :=
    Vector.getElem_ofFn i.isLt
  have hroom : waiting.core.board.room = 3 := hlow ⟨0x289, by decide⟩
  have hfill : waiting.core.board.fill = 0 := hlow ⟨0xC6, by decide⟩
  have hsession : Session waiting typing.typing [] typing.runFrame.2 := by
    refine (Session.start.type typing.typing).waits waits_waiting ?_
    change waiting.core.board.room ≤ 18
    rw [hroom]
    decide
  obtain ⟨htype, -, hconserved⟩ := typed_in_order (σ := Disk)
  have htyped := htype waiting.core.board typing.typing (by rw [hroom]; decide)
  rw [hroom, hfill] at htyped
  have hempty : waiting.core.board.buffered = [] := by
    rw [Board.buffered, hfill]
    rfl
  have hkept := hconserved _ _ _ _ hsession
  rw [hempty, List.nil_append, List.nil_append] at hkept
  exact ⟨by rw [hroom]; decide, htyped, hsession, hkept.symm⟩

end Machine
end Vic20
