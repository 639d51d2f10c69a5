import Mathlib.Tactic.SplitIfs
import Vic20.Drive.Handshake

/-! A drive in two parts: its wire, which is the lines and the handshake on them, and the rest, which is its
work on commands and files. The command layer does the same on every wire and leaves the wire as it is.
Only a secondary address turns the link around, and only in a drive that has been told to talk. -/

namespace Vic20.Drive

/-- The lines and the state of the handshake. -/
structure Wire where
  atn : Bool
  clk : Bool
  data : Bool
  seenAtn : Bool
  clkOut : Bool
  dataOut : Bool
  link : Link
  elapsed : Nat
  bit : UInt8
  byte : UInt8
  last : Bool

variable {σ : Type}

def wire (d : Drive σ) : Wire :=
  ⟨d.atn, d.clk, d.data, d.seenAtn, d.clkOut, d.dataOut, d.link, d.elapsed, d.bit, d.byte, d.last⟩

/-- The drive with another wire. -/
def onWire (d : Drive σ) (w : Wire) : Drive σ :=
  { d with
    atn := w.atn, clk := w.clk, data := w.data, seenAtn := w.seenAtn, clkOut := w.clkOut
    dataOut := w.dataOut, link := w.link, elapsed := w.elapsed, bit := w.bit, byte := w.byte
    last := w.last }

variable (d : Drive σ) (w w' : Wire)

@[simp] theorem wire_onWire : (d.onWire w).wire = w := rfl

@[simp] theorem onWire_onWire : (d.onWire w).onWire w' = d.onWire w' := rfl

/-- Two drives that differ at most in their wires: the second is the first on its own wire. -/
def SameWork (d e : Drive σ) : Prop := e = d.onWire e.wire

theorem sameWork_onWire : SameWork d (d.onWire w) := rfl

@[simp] theorem onWire_atn : (d.onWire w).atn = w.atn := rfl
@[simp] theorem onWire_clk : (d.onWire w).clk = w.clk := rfl
@[simp] theorem onWire_data : (d.onWire w).data = w.data := rfl
@[simp] theorem onWire_seenAtn : (d.onWire w).seenAtn = w.seenAtn := rfl
@[simp] theorem onWire_clkOut : (d.onWire w).clkOut = w.clkOut := rfl
@[simp] theorem onWire_dataOut : (d.onWire w).dataOut = w.dataOut := rfl
@[simp] theorem onWire_link : (d.onWire w).link = w.link := rfl
@[simp] theorem onWire_elapsed : (d.onWire w).elapsed = w.elapsed := rfl
@[simp] theorem onWire_bit : (d.onWire w).bit = w.bit := rfl
@[simp] theorem onWire_byte : (d.onWire w).byte = w.byte := rfl
@[simp] theorem onWire_last : (d.onWire w).last = w.last := rfl

@[simp] theorem onWire_device : (d.onWire w).device = d.device := rfl
@[simp] theorem onWire_storage : (d.onWire w).storage = d.storage := rfl
@[simp] theorem onWire_longDirectory : (d.onWire w).longDirectory = d.longDirectory := rfl
@[simp] theorem onWire_empty : (d.onWire w).empty = d.empty := rfl
@[simp] theorem onWire_arbitration : (d.onWire w).arbitration = d.arbitration := rfl
@[simp] theorem onWire_channel : (d.onWire w).channel = d.channel := rfl
@[simp] theorem onWire_channels : (d.onWire w).channels = d.channels := rfl
@[simp] theorem onWire_buffer : (d.onWire w).buffer = d.buffer := rfl
@[simp] theorem onWire_current? : (d.onWire w).current? = d.current? := rfl

section SameWork

variable {d} {e : Drive σ} (h : SameWork d e)

include h

theorem SameWork.eq : e = d.onWire e.wire := h

theorem SameWork.onWire (w : Wire) : SameWork d (e.onWire w) := by
  rw [h.eq]
  rfl

theorem SameWork.device : e.device = d.device := by rw [h.eq, onWire_device]

theorem SameWork.empty : e.empty = d.empty := by rw [h.eq, onWire_empty]

theorem SameWork.storage : e.storage = d.storage := by rw [h.eq, onWire_storage]

theorem SameWork.arbitration : e.arbitration = d.arbitration := by rw [h.eq, onWire_arbitration]

theorem SameWork.channels : e.channels = d.channels := by rw [h.eq, onWire_channels]

theorem SameWork.buffer : e.buffer = d.buffer := by rw [h.eq, onWire_buffer]

end SameWork

/-- A drive that is not addressed lets go of the bus with attention. -/
theorem setAtn_idle (ha : w.atn = true) (hi : d.arbitration = .idle) :
    (d.onWire w).setAtn false = d.onWire { w with
      atn := false, seenAtn := false, clkOut := false, dataOut := false, link := .idle, elapsed := 0 } := by
  have hlets : ((d.onWire w).atn && !false && (d.onWire w).arbitration == .idle) = true := by simp [ha, hi]
  rw [setAtn, if_pos hlets]
  rfl

theorem setAtn_addressed (hi : d.arbitration ≠ .idle) :
    (d.onWire w).setAtn false = d.onWire { w with atn := false } := by
  have hkeeps : ¬((d.onWire w).atn && !false && (d.onWire w).arbitration == .idle) = true := by simp [hi]
  rw [setAtn, if_neg hkeeps]
  rfl

/-! ### Work -/

/-- The drive with a change of its wire and of its journal. -/
def placed (f : Wire → Wire) (g : Array Event → Array Event) (d : Drive σ) : Drive σ :=
  { d.onWire (f d.wire) with journal := g d.journal }

/-- Keeps a byte if there is room. -/
def keep (d : Drive σ) (v : UInt8) : Drive σ :=
  if d.buffer.size < bufferSize then { d with buffer := d.buffer.push v } else d

section Placed

variable (f : Wire → Wire) {g : Array Event → Array Event}

@[simp] theorem placed_device : (d.placed f g).device = d.device := rfl
@[simp] theorem placed_storage : (d.placed f g).storage = d.storage := rfl
@[simp] theorem placed_arbitration : (d.placed f g).arbitration = d.arbitration := rfl
@[simp] theorem placed_channel : (d.placed f g).channel = d.channel := rfl
@[simp] theorem placed_buffer : (d.placed f g).buffer = d.buffer := rfl
@[simp] theorem placed_current? : (d.placed f g).current? = d.current? := rfl

theorem setCurrent_placed (c : Channel) : (d.placed f g).setCurrent c = (d.setCurrent c).placed f g := by
  unfold setCurrent
  rw [placed_channel]
  cases d.channel <;> rfl

theorem keep_placed (v : UInt8) : (d.placed f g).keep v = (d.keep v).placed f g := by
  unfold keep
  rw [placed_buffer]
  split_ifs <;> rfl

theorem useStorage_placed {α : Type} (u : σ → Except Storage.Fault α × σ)
    (wrap : Storage.Fault → StorageError) :
    (d.placed f g).useStorage u wrap = ((d.useStorage u wrap).1, (d.useStorage u wrap).2.placed f g) := by
  unfold useStorage
  rw [placed_storage]
  cases d.storage <;> rfl

theorem useStorage_onWire {α : Type} (u : σ → Except Storage.Fault α × σ)
    (wrap : Storage.Fault → StorageError) :
    (d.onWire w).useStorage u wrap = ((d.useStorage u wrap).1, (d.useStorage u wrap).2.onWire w) :=
  useStorage_placed d (fun _ => w) (g := id) u wrap

variable (hg : ∀ es e, (g es).push e = g (es.push e))

include hg

/-- An event noted goes behind those that the change has put before. -/
theorem note_placed (e : Event) : (d.placed f g).note e = (d.note e).placed f g := by
  simp only [note, placed, hg]
  rfl

theorem setArbitration_placed (a : Arbitration) :
    (d.placed f g).setArbitration a = (d.setArbitration a).placed f g := by
  unfold setArbitration
  rw [placed_arbitration, note_placed d f hg]
  split <;> rfl

theorem noteError_placed {α : Type} (r : Except StorageError α) :
    (d.placed f g).noteError r = (d.noteError r).placed f g := by
  cases r with
  | ok v => rfl
  | error e => exact note_placed d f hg (.failed e)

theorem install_placed (n : UInt8) (r : Except StorageError Channel) :
    (d.placed f g).install n r = (d.install n r).placed f g := by
  cases r with
  | ok c => rfl
  | error e =>
    simp only [install, note_placed d f hg]
    rfl

variable [Storage σ]

omit hg in
theorem openListing_placed :
    (d.placed f g).openListing = (d.openListing.1, d.openListing.2.placed f g) := by
  unfold openListing
  rw [useStorage_placed]
  rcases d.useStorage Storage.entries .listing with ⟨_ | es, e⟩ <;> rfl

omit hg in
theorem openForReading_placed (name : String) :
    (d.placed f g).openForReading name = ((d.openForReading name).1, (d.openForReading name).2.placed f g) := by
  unfold openForReading
  rw [useStorage_placed]
  rcases d.useStorage (Storage.openFile · name .read) (.opening name) with ⟨_ | file, e⟩
  · rfl
  · simp only [useStorage_placed]
    rcases e.useStorage (Storage.size · file) (.opening name) with ⟨_ | size, e'⟩ <;> rfl

omit hg in
theorem openForWriting_placed (name : String) :
    (d.placed f g).openForWriting name = ((d.openForWriting name).1, (d.openForWriting name).2.placed f g) := by
  unfold openForWriting
  rw [useStorage_placed]
  rcases d.useStorage (Storage.openFile · name .write) (.opening name) with ⟨_ | file, e⟩ <;> rfl

theorem openChannel_placed : (d.placed f g).openChannel = d.openChannel.placed f g := by
  unfold openChannel
  rw [placed_channel, placed_buffer]
  cases d.channel with
  | none => rfl
  | some n =>
    simp only [note_placed d f hg, openListing_placed, openForReading_placed, openForWriting_placed,
      install_placed _ f hg]
    split_ifs <;> rfl

theorem closeChannel_placed : (d.placed f g).closeChannel = d.closeChannel.placed f g := by
  unfold closeChannel
  rw [placed_channel, placed_current?]
  rcases d.channel with _ | n
  · rfl
  · rcases d.current? with _ | c
    · rfl
    · cases c <;> simp only [note_placed d f hg, useStorage_placed, noteError_placed _ f hg] <;> rfl

theorem writeChannel_placed : (d.placed f g).writeChannel = d.writeChannel.placed f g := by
  unfold writeChannel
  rw [placed_current?, placed_buffer]
  rcases d.current? with _ | c
  · rfl
  · cases c with
    | write file =>
      simp only [useStorage_placed]
      split_ifs
      · rfl
      · rcases d.useStorage (Storage.write · file d.buffer.toList) .writing with ⟨_ | file', e⟩
        · exact note_placed e f hg _
        · exact setCurrent_placed e f (.write file')
    | _ => rfl

theorem unlisten_placed : (d.placed f g).unlisten = d.unlisten.placed f g := by
  simp only [unlisten, placed_arbitration, placed_buffer, openChannel_placed d f hg, closeChannel_placed d f hg,
    writeChannel_placed d f hg]
  split_ifs <;> exact setArbitration_placed _ f hg .idle

end Placed

variable [Storage σ]

theorem collect_eq (v : UInt8) :
    d.collect v =
      if d.arbitration = .opening ∨ d.arbitration = .listening then
        (if d.buffer.size = bufferSize ∧ d.arbitration = .listening ∧ d.current? matches some (.write _) then
          { d.writeChannel with buffer := #[] }
        else d).keep v
      else d := rfl

theorem collect_placed (f : Wire → Wire) {g : Array Event → Array Event}
    (hg : ∀ es e, (g es).push e = g (es.push e)) (v : UInt8) :
    (d.placed f g).collect v = (d.collect v).placed f g := by
  rw [collect_eq, collect_eq, placed_arbitration, placed_buffer, placed_current?, writeChannel_placed d f hg]
  split_ifs
  · exact keep_placed { d.writeChannel with buffer := #[] } f v
  · exact keep_placed d f v
  · rfl

/-! ### Commands -/

section Kinds

variable {d} {v : UInt8}

theorem command_listen (h : (v &&& 0xE0).toNat = 0x20) :
    d.command v =
      { (if v &&& 0x1F = unaddress then (d.note (.command v)).unlisten
          else if v &&& 0x1F = d.device then (d.note (.command v)).setArbitration .listening
          else d.note (.command v)) with
        channel := none, buffer := #[] } := by
  unfold command
  rw [h]
  rfl

theorem command_talk (h : (v &&& 0xE0).toNat = 0x40) :
    d.command v = ({ d.note (.command v) with channel := none } : Drive σ).setArbitration
      (if v &&& 0x1F = d.device then .talking else .idle) := by
  unfold command
  rw [h]
  rfl

theorem command_secondary (h : (v &&& 0xE0).toNat = 0x60) :
    d.command v =
      if d.arbitration = .idle then d.note (.command v)
      else if d.arbitration = .talking then
        ({ d.note (.command v) with channel := some (v &&& 0x1F) } : Drive σ).enter .turnAround
      else { d.note (.command v) with channel := some (v &&& 0x1F) } := by
  unfold command
  rw [h]
  rfl

theorem command_open (h : (v &&& 0xE0).toNat = 0xE0) :
    d.command v = ({ d.note (.command v) with channel := some (v &&& 0x1F &&& 0x0F) } : Drive σ).setArbitration
      (if v &&& 0x1F &&& 0x10 != 0 then .opening else .closing) := by
  unfold command
  rw [h]
  rfl

theorem command_other (h₂ : (v &&& 0xE0).toNat ≠ 0x20) (h₄ : (v &&& 0xE0).toNat ≠ 0x40)
    (h₆ : (v &&& 0xE0).toNat ≠ 0x60) (hE : (v &&& 0xE0).toNat ≠ 0xE0) :
    d.command v = d.note (.command v) := by
  unfold command
  split <;> first | rfl | contradiction

end Kinds

/-- A secondary address that reaches a drive told to talk. -/
def Turns (d : Drive σ) (v : UInt8) : Prop := (0x60 ≤ v ∧ v ≤ 0x7F) ∧ d.arbitration = .talking

instance (v : UInt8) : Decidable (d.Turns v) := inferInstanceAs (Decidable (_ ∧ _))

theorem secondary_iff (v : UInt8) : (v &&& 0xE0).toNat = 0x60 ↔ 0x60 ≤ v ∧ v ≤ 0x7F := by
  obtain ⟨v⟩ := v
  revert v
  decide +kernel

/-- A link that waits for the computer to hand over the clock. -/
def Wire.turned (w : Wire) : Wire := { w with link := .turnAround, elapsed := 0 }

theorem command_onWire_secondary {v : UInt8} (h : (v &&& 0xE0).toNat = 0x60) :
    (d.onWire w).command v = (d.command v).onWire (if d.Turns v then w.turned else w) := by
  have hT : d.Turns v ↔ d.arbitration = .talking := by simp [Turns, (secondary_iff v).1 h]
  rw [command_secondary h, command_secondary h, onWire_arbitration]
  by_cases hi : d.arbitration = .idle
  · rw [if_pos hi, if_pos hi, if_neg (by rw [hT, hi]; decide)]
    rfl
  · rw [if_neg hi, if_neg hi]
    by_cases ht : d.arbitration = .talking
    · rw [if_pos ht, if_pos ht, if_pos (hT.2 ht)]
      rfl
    · rw [if_neg ht, if_neg ht, if_neg (mt hT.1 ht)]
      rfl

/-- Any other command leaves the wire alone. -/
theorem command_placed (f : Wire → Wire) {g : Array Event → Array Event}
    (hg : ∀ es e, (g es).push e = g (es.push e)) {v : UInt8} (h₆ : (v &&& 0xE0).toNat ≠ 0x60) :
    (d.placed f g).command v = (d.command v).placed f g := by
  by_cases h₂ : (v &&& 0xE0).toNat = 0x20
  · rw [command_listen h₂, command_listen h₂, note_placed d f hg, unlisten_placed _ f hg,
      setArbitration_placed _ f hg, placed_device]
    split_ifs <;> rfl
  by_cases h₄ : (v &&& 0xE0).toNat = 0x40
  · rw [command_talk h₄, command_talk h₄, note_placed d f hg]
    exact setArbitration_placed { d.note (.command v) with channel := none } f hg _
  by_cases hE : (v &&& 0xE0).toNat = 0xE0
  · rw [command_open hE, command_open hE, note_placed d f hg]
    exact setArbitration_placed { d.note (.command v) with channel := some (v &&& 0x1F &&& 0x0F) } f hg _
  rw [command_other h₂ h₄ h₆ hE, command_other h₂ h₄ h₆ hE, note_placed d f hg]

theorem command_onWire (v : UInt8) :
    (d.onWire w).command v = (d.command v).onWire (if d.Turns v then w.turned else w) := by
  by_cases h₆ : (v &&& 0xE0).toNat = 0x60
  · exact command_onWire_secondary d w h₆
  · rw [if_neg fun hT => h₆ ((secondary_iff v).2 hT.1)]
    exact command_placed d (fun _ => w) (g := id) (fun _ _ => rfl) h₆

/-- What a byte does to the work of the drive, under attention or not. -/
def hear (d : Drive σ) (atn : Bool) (v : UInt8) : Drive σ := if atn then d.command v else d.collect v

theorem receive_onWire (v : UInt8) :
    (d.onWire w).receive v = (d.hear w.atn v).onWire (if w.atn ∧ d.Turns v then w.turned else w) := by
  unfold receive hear
  change (if w.atn then _ else _) = _
  cases w.atn with
  | false => exact collect_placed d (fun _ => w) (g := id) (fun _ _ => rfl) v
  | true => simpa using command_onWire d w v

end Vic20.Drive
