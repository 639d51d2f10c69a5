import Vic20.Proofs.Drive.Delivery
import Vic20.Proofs.Drive.Invariant

/-! What storage cannot reach. What a drive is addressed for follows from the commands alone, and the handshake of
a receiver from the wire. So two drives that hear the same show the same on the bus, whatever their storages hold
and whichever operations fail, until one is told to talk. -/

namespace Vic20.Drive

open Storage

variable {σ τ : Type}

/-- What decides whom a command is for: the device number, and what the drive is addressed for. -/
structure Arbiter where
  device : UInt8
  arbitration : Arbitration
  channel : Option UInt8
  deriving DecidableEq

def arbiter (d : Drive σ) : Arbiter := ⟨d.device, d.arbitration, d.channel⟩

/-- What a command makes of the arbiter. -/
def Arbiter.command (a : Arbiter) (v : UInt8) : Arbiter :=
  let address := v &&& 0x1F
  match (v &&& 0xE0).toNat with
  | 0x20 =>
    { a with
      channel := none
      arbitration :=
        if address = unaddress then .idle else if address = a.device then .listening else a.arbitration }
  | 0x40 => { a with channel := none, arbitration := if address = a.device then .talking else .idle }
  | 0x60 => if a.arbitration = .idle then a else { a with channel := some address }
  | 0xE0 =>
    { a with
      channel := some (address &&& 0x0F)
      arbitration := if address &&& 0x10 != 0 then .opening else .closing }
  | _ => a

/-! ### Commands -/

section Arbiter

variable (d : Drive σ)

theorem setArbitration_arbiter (a : Arbitration) : (d.setArbitration a).arbiter = ⟨d.device, a, d.channel⟩ := by
  obtain ⟨journal, hj⟩ := setArbitration_eq d a
  rw [hj]
  rfl

theorem SameWork.arbiter {e : Drive σ} (h : SameWork d e) : e.arbiter = d.arbiter := by
  rw [h.eq]
  rfl

theorem setCurrent_arbiter (c : Channel) : (d.setCurrent c).arbiter = d.arbiter := by
  unfold setCurrent
  split <;> rfl

theorem keep_arbiter (v : UInt8) : (d.keep v).arbiter = d.arbiter := by
  unfold keep
  split_ifs <;> rfl

theorem install_arbiter (n : UInt8) (c : Except StorageError Channel) : (d.install n c).arbiter = d.arbiter := by
  cases c <;> rfl

theorem noteError_arbiter {α : Type} (r : Except StorageError α) : (d.noteError r).arbiter = d.arbiter := by
  cases r <;> rfl

variable [Storage σ]

theorem openListing_arbiter : d.openListing.2.arbiter = d.arbiter := by
  obtain ⟨r, storage, hr⟩ := useStorage_keeps d Storage.entries .listing
  rw [openListing, hr]
  cases r <;> rfl

theorem openForReading_arbiter (name : String) : (d.openForReading name).2.arbiter = d.arbiter := by
  obtain ⟨r, storage, hr⟩ := useStorage_keeps d (Storage.openFile · name .read) (.opening name)
  rw [openForReading, hr]
  cases r with
  | error e => rfl
  | ok file =>
    obtain ⟨r, storage, hr⟩ :=
      useStorage_keeps { d with storage } (Storage.size · file) (.opening name)
    dsimp only
    rw [hr]
    cases r <;> rfl

theorem openForWriting_arbiter (name : String) : (d.openForWriting name).2.arbiter = d.arbiter := by
  obtain ⟨r, storage, hr⟩ := useStorage_keeps d (Storage.openFile · name .write) (.opening name)
  rw [openForWriting, hr]
  cases r <;> rfl

theorem openChannel_arbiter : d.openChannel.arbiter = d.arbiter := by
  unfold openChannel
  split
  · rfl
  dsimp only
  split
  · exact (install_arbiter _ _ _).trans (openListing_arbiter _)
  split
  · exact (install_arbiter _ _ _).trans (openForReading_arbiter _ _)
  split
  · exact (install_arbiter _ _ _).trans (openForWriting_arbiter _ _)
  · rfl

theorem closeChannel_arbiter : d.closeChannel.arbiter = d.arbiter := by
  unfold closeChannel
  split
  · rename_i n c _ _
    cases c with
    | write file =>
      obtain ⟨r, storage, hr⟩ :=
        useStorage_keeps (d.note (.closed n (Channel.write file).kind)) (Storage.flush · file) .writing
      dsimp only
      rw [hr]
      exact noteError_arbiter _ r
    | _ => rfl
  · rfl

theorem writeChannel_arbiter : d.writeChannel.arbiter = d.arbiter := by
  unfold writeChannel
  split
  · rename_i file _
    split_ifs
    · rfl
    · obtain ⟨r, storage, hr⟩ := useStorage_keeps d (Storage.write · file d.buffer.toList) .writing
      rw [hr]
      cases r with
      | ok file' => exact setCurrent_arbiter _ _
      | error e => rfl
  · rfl

/-- Whether what was asked for succeeds is not learnt. -/
theorem unlisten_arbiter : d.unlisten.arbiter = ⟨d.device, .idle, d.channel⟩ := by
  have hdone : (if d.arbitration = .opening ∧ !d.buffer.isEmpty then d.openChannel
      else if d.arbitration = .closing then d.closeChannel else d.writeChannel).arbiter = d.arbiter := by
    split_ifs
    · exact openChannel_arbiter d
    · exact closeChannel_arbiter d
    · exact writeChannel_arbiter d
  unfold unlisten
  rw [setArbitration_arbiter]
  exact congrArg (fun a : Arbiter => (⟨a.device, .idle, a.channel⟩ : Arbiter)) hdone

/-- Bytes that are not commands go to a buffer, or to storage. -/
theorem collect_arbiter (v : UInt8) : (d.collect v).arbiter = d.arbiter := by
  rw [collect_eq]
  split_ifs
  · exact (keep_arbiter _ v).trans (writeChannel_arbiter d)
  · exact keep_arbiter d v
  · rfl

end Arbiter

section Commands

variable [Storage σ] (d : Drive σ) (v : UInt8)

theorem command_listen_arbiter (h : (v &&& 0xE0).toNat = 0x20) : (d.command v).arbiter = d.arbiter.command v := by
  have hunlisten := unlisten_arbiter (d.note (.command v))
  have hlistening := setArbitration_arbiter (d.note (.command v)) .listening
  have hcommand : d.arbiter.command v = ⟨d.device, if v &&& 0x1F = unaddress then .idle else
      if v &&& 0x1F = d.device then .listening else d.arbitration, none⟩ := by
    simp only [Arbiter.command, h]
    rfl
  rw [command_listen h, hcommand]
  split_ifs
  · exact congrArg (fun a : Arbiter => { a with channel := none }) hunlisten
  · exact congrArg (fun a : Arbiter => { a with channel := none }) hlistening
  · rfl

/-- The commands alone decide. -/
theorem command_arbiter : (d.command v).arbiter = d.arbiter.command v := by
  by_cases h₂ : (v &&& 0xE0).toNat = 0x20
  · exact command_listen_arbiter d v h₂
  by_cases h₄ : (v &&& 0xE0).toNat = 0x40
  · rw [command_talk h₄, setArbitration_arbiter]
    simp only [Arbiter.command, h₄]
    rfl
  by_cases h₆ : (v &&& 0xE0).toNat = 0x60
  · rw [command_secondary h₆]
    simp only [Arbiter.command, h₆]
    change _ = if d.arbitration = .idle then _ else _
    split_ifs <;> rfl
  by_cases hE : (v &&& 0xE0).toNat = 0xE0
  · rw [command_open hE, setArbitration_arbiter]
    simp only [Arbiter.command, hE]
    rfl
  · rw [command_other h₂ h₄ h₆ hE]
    unfold Arbiter.command
    split <;> first | rfl | contradiction

theorem hear_arbiter (atn : Bool) :
    (d.hear atn v).arbiter = if atn then d.arbiter.command v else d.arbiter := by
  unfold hear
  split_ifs
  · exact command_arbiter d v
  · exact collect_arbiter d v

end Commands

/-! ### The handshake of a receiver -/

/-- The states that a link passes through until the drive turns to talk. -/
def Link.Receives : Link → Prop
  | idle | senderProbing | readyToReceive | waitDataValid | waitDataInvalid | dataAccepted | goToIdle => True
  | _ => False

/-- Two receivers that nothing on the bus tells apart. -/
structure Alike (d : Drive σ) (e : Drive τ) : Prop where
  wire : d.wire = e.wire
  arbiter : d.arbiter = e.arbiter
  receives : d.link.Receives

variable {d : Drive σ} {e : Drive τ} {w : Wire}

theorem Alike.of_onWire (h : d.arbiter = e.arbiter) (hw : w.link.Receives) : Alike (d.onWire w) (e.onWire w) :=
  ⟨rfl, h, hw⟩

theorem Alike.arbitration (h : Alike d e) : d.arbitration = e.arbitration := congrArg Arbiter.arbitration h.arbiter

theorem Alike.channel (h : Alike d e) : d.channel = e.channel := congrArg Arbiter.channel h.arbiter

variable [Storage σ] [Storage τ]

/-- While a receiver has no whole byte, a step reaches its wire alone. -/
theorem step_listens (hw : w.link.Receives) (hq : w.link ≠ .dataAccepted ∨ w.data = true) :
    SameWork d (d.onWire w).step ∧ (d.onWire w).step.link.Receives := by
  unfold step
  cases hl : w.link <;> rw [hl] at hw hq <;> simp only [onWire_link, hl]
  case dataAccepted =>
    rw [onWire_data, if_pos (hq.resolve_left (absurd rfl)), onWire_link, hl]
    exact ⟨rfl, hw⟩
  case idle | senderProbing | readyToReceive | waitDataValid | waitDataInvalid | goToIdle =>
    split_ifs <;> first | exact ⟨rfl, trivial⟩ | exact ⟨rfl, by rw [onWire_link, hl]; trivial⟩
  all_goals exact hw.elim

/-- The wire after a step follows from the wire before it. -/
theorem step_listens_wire (hw : w.link.Receives) (hq : w.link ≠ .dataAccepted ∨ w.data = true) :
    (d.onWire w).step.wire = (e.onWire w).step.wire := by
  unfold step
  cases hl : w.link <;> rw [hl] at hw hq
  case dataAccepted =>
    have hdata : w.data = true := hq.resolve_left (absurd rfl)
    simp only [onWire_link, hl, onWire_data, hdata, if_true, wire_onWire]
  case idle | senderProbing | readyToReceive | waitDataValid | waitDataInvalid | goToIdle =>
    simp only [onWire_link, hl, apply_ite wire]
    rfl
  all_goals exact hw.elim

theorem Alike.step (h : d.arbiter = e.arbiter) (hw : w.link.Receives) (hu : d.arbitration ≠ .talking) :
    Alike (d.onWire w).step (e.onWire w).step := by
  by_cases hq : w.link ≠ .dataAccepted ∨ w.data = true
  · obtain ⟨hwork, hreceives⟩ := step_listens (d := d) hw hq
    obtain ⟨hwork', -⟩ := step_listens (d := e) hw hq
    exact ⟨step_listens_wire hw hq, hwork.arbiter.trans (h.trans hwork'.arbiter.symm), hreceives⟩
  · obtain ⟨hl, hdata⟩ : w.link = .dataAccepted ∧ w.data = false := by simpa using hq
    have harbitration : d.arbitration = e.arbitration := congrArg Arbiter.arbitration h
    have hu' : e.arbitration ≠ .talking := harbitration ▸ hu
    have hack : w.acknowledged.link.Receives := by
      unfold Wire.acknowledged
      cases w.last <;> trivial
    rw [step_accept hl hdata, step_accept hl hdata, receive_onWire, receive_onWire,
      if_neg fun hT => hu hT.2.2, if_neg fun hT => hu' hT.2.2]
    refine .of_onWire ?_ hack
    rw [hear_arbiter, hear_arbiter, h]

/-! ### Runs -/

theorem Alike.tick (h : Alike d e) (hu : d.arbitration ≠ .talking) (n : Nat) : Alike (d.tick n) (e.tick n) := by
  have hanswered : d.wire.answered.link.Receives := by
    unfold Wire.answered
    split_ifs
    · trivial
    · exact h.receives
  have hd : d.tick n = _ := tick_onWire (w := d.wire) n
  have he : e.tick n = _ := tick_onWire (w := e.wire) n
  rw [hd, he, ← h.wire, ← h.arbitration]
  split_ifs
  · exact .step h.arbiter hanswered hu
  · exact .of_onWire h.arbiter hanswered

omit [Storage σ] in
theorem setAtn_onWire_wire (pulled : Bool) :
    ((d.onWire w).setAtn pulled).wire =
      if w.atn && !pulled && d.arbitration == .idle then
        { w with atn := pulled, seenAtn := false, clkOut := false, dataOut := false, link := .idle, elapsed := 0 }
      else { w with atn := pulled } := by
  unfold Drive.setAtn
  rw [onWire_atn, onWire_arbitration]
  split_ifs <;> rfl

omit [Storage σ] [Storage τ] in
theorem Alike.setAtn (h : Alike d e) (pulled : Bool) : Alike (d.setAtn pulled) (e.setAtn pulled) := by
  have hd : (d.setAtn pulled).wire = _ := setAtn_onWire_wire (w := d.wire) pulled
  have he : (e.setAtn pulled).wire = _ := setAtn_onWire_wire (w := e.wire) pulled
  refine ⟨?_, ?_, ?_⟩
  · rw [hd, he, h.wire, h.arbitration]
  · rw [(sameWork_setAtn d pulled).arbiter, h.arbiter, (sameWork_setAtn e pulled).arbiter]
  · unfold Drive.setAtn
    split_ifs
    · trivial
    · exact h.receives

theorem Alike.signal (h : Alike d e) (hu : d.arbitration ≠ .talking) (s : Signal) :
    Alike (d.signal s) (e.signal s) := by
  cases s with
  | atn pulled => exact h.setAtn pulled
  | clk pulled => exact ⟨congrArg (fun w : Wire => { w with clk := pulled }) h.wire, h.arbiter, h.receives⟩
  | data pulled => exact ⟨congrArg (fun w : Wire => { w with data := pulled }) h.wire, h.arbiter, h.receives⟩
  | pass cycles => exact h.tick hu cycles

/-- What of an operation is done on the bus. -/
inductive BusEvent where
  | signal (s : Signal)
  | reset
  | nothing

/-- To attach a storage, to choose the form of listings and to read the journal is done aside. -/
def Operation.onBus : Operation σ → BusEvent
  | .signal s => .signal s
  | .reset => .reset
  | .attach _ | .listings _ | .takeJournal => .nothing

theorem Alike.apply (h : Alike d e) (hu : d.arbitration ≠ .talking) {o : Operation σ} {p : Operation τ}
    (hop : o.onBus = p.onBus) : Alike (d.apply o) (e.apply p) := by
  cases o with
  | signal s =>
    cases p with
    | signal s' =>
      obtain rfl : s = s' := BusEvent.signal.inj hop
      exact h.signal hu s
    | reset | attach | listings | takeJournal => cases hop
  | reset =>
    cases p with
    | reset => exact ⟨rfl, congrArg (fun a : Arbiter => (⟨a.device, .idle, none⟩ : Arbiter)) h.arbiter, trivial⟩
    | signal | attach | listings | takeJournal => cases hop
  | attach | listings | takeJournal =>
    cases p with
    | attach | listings | takeJournal => exact ⟨h.wire, h.arbiter, h.receives⟩
    | signal | reset => cases hop

/-- The drive is told to talk by the last operation, if at all. -/
def Untold (d : Drive σ) : List (Operation σ) → Prop
  | [] => True
  | o :: os => d.arbitration ≠ .talking ∧ (d.apply o).Untold os

instance Untold.decidable (d : Drive σ) : (os : List (Operation σ)) → Decidable (d.Untold os)
  | [] => inferInstanceAs (Decidable True)
  | o :: os =>
    have := Untold.decidable (d.apply o) os
    inferInstanceAs (Decidable (_ ∧ _))

theorem Alike.operate (h : Alike d e) {os : List (Operation σ)} {ps : List (Operation τ)}
    (hops : os.map Operation.onBus = ps.map Operation.onBus) (hu : d.Untold os) :
    Alike (d.operate os) (e.operate ps) := by
  induction os generalizing d e ps with
  | nil =>
    obtain rfl : ps = [] := List.map_eq_nil_iff.mp hops.symm
    exact h
  | cons o os ih =>
    cases ps with
    | nil => cases hops
    | cons p ps =>
      obtain ⟨hop, hops⟩ := List.cons.inj hops
      exact ih (h.apply hu.1 hop) hops hu.2

/-- A new drive with a storage or without. -/
def fresh (device : UInt8) (storage : Option σ) : Drive σ := { device, storage }

/-- Up to when one of two drives is told to talk, and in the state that this leads to, nothing on the bus tells
them apart, whatever is done with their storages and whatever these do. -/
theorem storage_unseen (device : UInt8) (s : Option σ) (t : Option τ) {os : List (Operation σ)}
    {ps : List (Operation τ)} (hops : os.map Operation.onBus = ps.map Operation.onBus) (n : Nat)
    (hu : (fresh device s).Untold (os.take n)) :
    let d := (fresh device s).operate (os.take n)
    let e := (fresh device t).operate (ps.take n)
    d.link = e.link ∧ d.arbitration = e.arbitration ∧ d.channel = e.channel ∧ d.clkOut = e.clkOut ∧
      d.dataOut = e.dataOut ∧ d.active = e.active := by
  intro d e
  have hfresh : Alike (fresh device s) (fresh device t) := ⟨rfl, rfl, trivial⟩
  have htaken : (os.take n).map Operation.onBus = (ps.take n).map Operation.onBus := by
    rw [List.map_take, List.map_take, hops]
  have halike : Alike d e := hfresh.operate htaken hu
  have hactive : (d.wire.atn || d.arbitration != .idle) = (e.wire.atn || e.arbitration != .idle) := by
    rw [halike.wire, halike.arbitration]
  exact ⟨congrArg Wire.link halike.wire, halike.arbitration, halike.channel, congrArg Wire.clkOut halike.wire,
    congrArg Wire.dataOut halike.wire, hactive⟩

/-- OPEN of channel zero with the name A, in full. -/
def openA : List Signal :=
  commandSignals ⟨100, [], by decide⟩ [(0x28, evenPace), (0xF0, evenPace)] ++
    .atn false :: byteSignals 0x41 evenPace ++ commandSignals ⟨100, [], by decide⟩ [(0x3F, evenPace)]

/-- With a disk that has the file, but will not read from it, and with none. -/
theorem storage_unseen_openA :
    let disk : Disk := { files := #[⟨"A.PRG", #[1, 2]⟩], failing := [.read] }
    let os : List (Operation Disk) := openA.map .signal
    let d := (fresh 8 (some disk)).operate os
    let e := (fresh 8 none).operate os
    d.channel? 0 ≠ e.channel? 0 ∧ d.link = e.link ∧ d.arbitration = e.arbitration ∧ d.channel = e.channel ∧
      d.clkOut = e.clkOut ∧ d.dataOut = e.dataOut ∧ d.active = e.active := by
  intro disk os d e
  have hu : (fresh 8 (some disk)).Untold os := by decide +kernel
  have hunseen := storage_unseen 8 (some disk) (none : Option Disk) (rfl : os.map Operation.onBus = _) os.length
    (by rwa [List.take_length])
  rw [List.take_length] at hunseen
  exact ⟨by decide +kernel, hunseen⟩

end Vic20.Drive
