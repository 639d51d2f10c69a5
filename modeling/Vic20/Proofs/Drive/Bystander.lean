import Vic20.Proofs.Drive.Invariant
import Vic20.Proofs.Storage.Recorded
import Vic20.Serial.Computer
import Vic20.Storage.Disk

/-! Bytes that a drive overhears. All devices listen under attention, so a drive that is not addressed takes in
what is meant for others. LISTEN and TALK name a device, and a secondary address is left to whoever is addressed.
OPEN and CLOSE name no device either, but a drive takes them in any state: they are what it overhears for its own,
and nothing else is. -/

namespace Vic20.Drive

open Serial Storage

/-- LISTEN or TALK of a device. -/
def Handover.Addresses (given : Handover) (device : UInt8) : Prop :=
  given.command = true ∧ (given.byte = listenTo device ∨ given.byte = talkTo device)

/-- OPEN or CLOSE of a channel. -/
def Handover.Opens (given : Handover) : Prop := given.command = true ∧ 0xE0 ≤ given.byte

instance (given : Handover) (device : UInt8) : Decidable (given.Addresses device) :=
  inferInstanceAs (Decidable (_ ∧ _))

instance (given : Handover) : Decidable given.Opens := inferInstanceAs (Decidable (_ ∧ _))

variable {σ : Type} {d e f : Drive σ}

/-! ### The channel in use -/

/-- A drive that is not addressed has no channel in use. -/
def Parted (d : Drive σ) : Prop := d.arbitration = .idle → d.channel = none

theorem SameWork.channel (h : SameWork d e) : e.channel = d.channel := by rw [h.eq, onWire_channel]

theorem Parted.congr (h : Parted d) (ha : e.arbitration = d.arbitration) (hc : e.channel = d.channel) :
    Parted e := fun hi => hc.trans (h (ha.symm.trans hi))

theorem Parted.of_sameWork (h : Parted d) (hw : SameWork d e) : Parted e := h.congr hw.arbitration hw.channel

theorem setArbitration_channel (d : Drive σ) (a : Arbitration) : (d.setArbitration a).channel = d.channel := by
  obtain ⟨journal, hj⟩ := setArbitration_eq d a
  rw [hj]

theorem setArbitration_arbitration (d : Drive σ) (a : Arbitration) : (d.setArbitration a).arbitration = a := by
  obtain ⟨journal, hj⟩ := setArbitration_eq d a
  rw [hj]

theorem setCurrent_channel (d : Drive σ) (c : Channel) : (d.setCurrent c).channel = d.channel := by
  unfold setCurrent
  split <;> rfl

theorem keep_channel (d : Drive σ) (v : UInt8) : (d.keep v).channel = d.channel := by
  unfold keep
  split_ifs <;> rfl

variable [Storage σ]

theorem writeChannel_channel (d : Drive σ) : d.writeChannel.channel = d.channel := by
  unfold writeChannel
  split
  · rename_i file _
    split_ifs
    · rfl
    · obtain ⟨r, storage, hr⟩ := useStorage_keeps d (Storage.write · file d.buffer.toList) .writing
      rw [hr]
      cases r with
      | ok file' => exact setCurrent_channel _ _
      | error e => rfl
  · rfl

theorem collect_channel (d : Drive σ) (v : UInt8) : (d.collect v).channel = d.channel := by
  rw [collect_eq]
  split_ifs
  · exact (keep_channel _ v).trans (writeChannel_channel d)
  · exact keep_channel d v
  · rfl

theorem fetch_channel (d : Drive σ) : d.fetch.channel = d.channel := by
  unfold fetch
  split
  · exact setCurrent_channel _ _
  · rename_i file remaining _
    obtain ⟨r, storage, hr⟩ := useStorage_keeps d (Storage.read · file) .reading
    rw [hr]
    cases r with
    | ok given => exact setCurrent_channel _ _
    | error e => rfl
  · rfl

theorem opening_ne_idle {address : UInt8} :
    (if address &&& 0x10 != 0 then Arbitration.opening else .closing) ≠ .idle := by
  split_ifs <;> decide

theorem Parted.command (h : Parted d) (v : UInt8) : Parted (d.command v) := by
  intro hi
  by_cases h₂ : (v &&& 0xE0).toNat = 0x20
  · rw [command_listen h₂]
  by_cases h₄ : (v &&& 0xE0).toNat = 0x40
  · rw [command_talk h₄, setArbitration_channel]
  by_cases h₆ : (v &&& 0xE0).toNat = 0x60
  · rw [command_secondary h₆] at hi ⊢
    split_ifs at hi ⊢ with hidle htalking
    · exact h hidle
    · exact absurd hi hidle
    · exact absurd hi hidle
  by_cases hE : (v &&& 0xE0).toNat = 0xE0
  · rw [command_open hE, setArbitration_arbitration] at hi
    exact absurd hi opening_ne_idle
  · rw [command_other h₂ h₄ h₆ hE] at hi ⊢
    exact h hi

theorem Parted.hear (h : Parted d) (atn : Bool) (v : UInt8) : Parted (d.hear atn v) := by
  unfold Drive.hear
  split_ifs
  · exact h.command v
  · exact h.congr (collect_arbitration d v) (collect_channel d v)

theorem Parted.tick (h : Parted d) (n : Nat) : Parted (d.tick n) := by
  have hwork := tick_work d n
  split at hwork
  · rcases hwork with hsame | hfetch
    · exact h.of_sameWork hsame
    · exact (h.congr (fetch_arbitration d) (fetch_channel d)).of_sameWork hfetch
  · rename_i given _ _
    exact (h.hear given.command given.byte).of_sameWork hwork.2

theorem Parted.apply (h : Parted d) (o : Operation σ) : Parted (d.apply o) := by
  cases o with
  | signal s =>
    cases s with
    | atn pulled => exact h.of_sameWork (sameWork_setAtn d pulled)
    | clk pulled => exact h
    | data pulled => exact h
    | pass cycles => exact h.tick cycles
  | reset => exact fun _ => rfl
  | attach storage => exact h
  | listings long => exact h
  | takeJournal => exact h

theorem Parted.operate (h : Parted d) (os : List (Operation σ)) : Parted (d.operate os) := by
  induction os generalizing d with
  | nil => exact h
  | cons o os ih => exact ih (h.apply o)

theorem Reached.parted (h : Reached d) : Parted d := by
  obtain ⟨device, os, rfl⟩ := h
  exact Parted.operate (fun _ => rfl) os

/-! ### Bytes that pass by -/

/-- Takes a byte, with attention as it is given. -/
def deliver (d : Drive σ) (given : Handover) : Drive σ := (d.setAtn given.command).receive given.byte

def deliverAll (d : Drive σ) (givens : List Handover) : Drive σ := givens.foldl deliver d

theorem deliverAll_append (d : Drive σ) (heard givens : List Handover) :
    d.deliverAll (heard ++ givens) = (d.deliverAll heard).deliverAll givens := List.foldl_append

theorem deliver_work (d : Drive σ) (given : Handover) :
    SameWork (d.hear given.command given.byte) (d.deliver given) := by
  have hatn : (d.setAtn given.command).wire.atn = given.command := rfl
  rw [deliver, (sameWork_setAtn d given.command).eq, receive_onWire, hatn]
  exact sameWork_onWire _ _

omit [Storage σ] in
/-- A drive that is as it was, but for its lines, the bytes collected and its notes. -/
def PassedBy (d e : Drive σ) : Prop := ∃ buffer journal, SameWork { d with buffer, journal } e

section PassedBy

omit [Storage σ]

theorem PassedBy.refl (d : Drive σ) : PassedBy d d := ⟨d.buffer, d.journal, rfl⟩

theorem PassedBy.trans (h : PassedBy d e) (h' : PassedBy e f) : PassedBy d f := by
  obtain ⟨buffer, journal, h⟩ := h
  obtain ⟨buffer', journal', h'⟩ := h'
  refine ⟨buffer', journal', ?_⟩
  rw [h'.eq, h.eq]
  exact sameWork_onWire _ _

theorem PassedBy.arbitration (h : PassedBy d e) : e.arbitration = d.arbitration := by
  obtain ⟨buffer, journal, h⟩ := h
  exact h.arbitration

theorem PassedBy.channel (h : PassedBy d e) : e.channel = d.channel := by
  obtain ⟨buffer, journal, h⟩ := h
  exact h.channel

theorem PassedBy.device (h : PassedBy d e) : e.device = d.device := by
  obtain ⟨buffer, journal, h⟩ := h
  exact h.device

theorem PassedBy.storage (h : PassedBy d e) : e.storage = d.storage := by
  obtain ⟨buffer, journal, h⟩ := h
  exact h.storage

theorem PassedBy.channels (h : PassedBy d e) : e.channels = d.channels := by
  obtain ⟨buffer, journal, h⟩ := h
  exact h.channels

end PassedBy

/-! A command is its kind with its address. -/

theorem eq_listenTo {v : UInt8} : (v &&& 0xE0).toNat = 0x20 → v = listenTo (v &&& 0x1F) := by
  obtain ⟨v⟩ := v
  revert v
  decide +kernel

theorem eq_talkTo {v : UInt8} : (v &&& 0xE0).toNat = 0x40 → v = talkTo (v &&& 0x1F) := by
  obtain ⟨v⟩ := v
  revert v
  decide +kernel

theorem open_iff (v : UInt8) : (v &&& 0xE0).toNat = 0xE0 ↔ 0xE0 ≤ v := by
  obtain ⟨v⟩ := v
  revert v
  decide +kernel

section Idle

omit [Storage σ]

theorem setArbitration_self {a : Arbitration} (h : d.arbitration = a) : d.setArbitration a = d := by
  rw [setArbitration, if_pos h, ← h]

theorem channel_none (h : d.channel = none) : { d with channel := none } = d := by
  rw [← h]

end Idle

/-- UNLISTEN finds nothing to carry out. -/
theorem unlisten_idle (hi : d.arbitration = .idle) (hc : d.channel = none) : d.unlisten = d := by
  have hwrite : d.writeChannel = d := by
    have hcurrent : d.current? = none := by
      rw [current?, hc]
      rfl
    rw [writeChannel, hcurrent]
  rw [Drive.unlisten, if_neg (by simp [hi]), if_neg (by simp [hi]), hwrite, setArbitration_self hi]

/-- A command to others leaves an idle drive alone, unless it is OPEN or CLOSE. -/
theorem command_passedBy {v : UInt8} (hi : d.arbitration = .idle) (hc : d.channel = none)
    (hlisten : v ≠ listenTo d.device) (htalk : v ≠ talkTo d.device) (hopen : ¬0xE0 ≤ v) :
    PassedBy d (d.command v) := by
  have hn : (d.note (.command v)).channel = none := hc
  by_cases h₂ : (v &&& 0xE0).toNat = 0x20
  · have haddress : v &&& 0x1F ≠ d.device := fun he => hlisten (he ▸ eq_listenTo h₂)
    refine ⟨#[], (d.note (.command v)).journal, ?_⟩
    rw [command_listen h₂, if_neg haddress, unlisten_idle (d := d.note (.command v)) hi hn, ite_self]
    exact congrArg (fun e : Drive σ => { e with buffer := #[] }) (channel_none hn)
  refine ⟨d.buffer, (d.note (.command v)).journal, ?_⟩
  by_cases h₄ : (v &&& 0xE0).toNat = 0x40
  · have haddress : v &&& 0x1F ≠ d.device := fun he => htalk (he ▸ eq_talkTo h₄)
    rw [command_talk h₄, if_neg haddress, channel_none hn,
      setArbitration_self (d := d.note (.command v)) hi]
    rfl
  by_cases h₆ : (v &&& 0xE0).toNat = 0x60
  · rw [command_secondary h₆, if_pos hi]
    rfl
  · rw [command_other h₂ h₄ h₆ (mt (open_iff v).1 hopen)]
    rfl

theorem deliver_passedBy {given : Handover} (hi : d.arbitration = .idle) (hc : d.channel = none)
    (haddress : ¬given.Addresses d.device) (hopen : ¬given.Opens) : PassedBy d (d.deliver given) := by
  have hhear : PassedBy d (d.hear given.command given.byte) := by
    unfold hear
    split_ifs with hcommand
    · exact command_passedBy hi hc (fun h => haddress ⟨hcommand, .inl h⟩)
        (fun h => haddress ⟨hcommand, .inr h⟩) fun h => hopen ⟨hcommand, h⟩
    · rw [collect_eq, if_neg (by simp [hi])]
      exact .refl d
  exact hhear.trans ⟨_, _, deliver_work d given⟩

theorem deliverAll_passedBy {givens : List Handover} (hi : d.arbitration = .idle) (hc : d.channel = none)
    (haddress : ∀ given ∈ givens, ¬given.Addresses d.device) (hopen : ∀ given ∈ givens, ¬given.Opens) :
    PassedBy d (d.deliverAll givens) := by
  induction givens generalizing d with
  | nil => exact .refl d
  | cons given givens ih =>
    have hgiven := deliver_passedBy hi hc (haddress given List.mem_cons_self) (hopen given List.mem_cons_self)
    refine hgiven.trans (ih (hgiven.arbitration.trans hi) (hgiven.channel.trans hc) ?_ ?_)
    · intro other hother
      rw [hgiven.device]
      exact haddress other (List.mem_cons_of_mem _ hother)
    · exact fun other hother => hopen other (List.mem_cons_of_mem _ hother)

/-- OPEN and CLOSE address a drive in any state. -/
theorem deliver_opens {given : Handover} (h : given.Opens) : (d.deliver given).arbitration ≠ .idle := by
  obtain ⟨hcommand, hbyte⟩ := h
  rw [(deliver_work d given).arbitration, hear, if_pos hcommand, command_open ((open_iff _).2 hbyte),
    setArbitration_arbitration]
  exact opening_ne_idle

/-- What an idle drive overhears leaves it idle throughout exactly as long as nobody is told to open or to close,
and then nothing is done on its storage or its channels. -/
theorem overheard_idle_iff (hd : Reached d) (hi : d.arbitration = .idle) {givens : List Handover}
    (haddress : ∀ given ∈ givens, ¬given.Addresses d.device) :
    ((∀ heard, heard <+: givens → (d.deliverAll heard).arbitration = .idle) ↔
        ∀ given ∈ givens, ¬given.Opens) ∧
      ((∀ given ∈ givens, ¬given.Opens) → PassedBy d (d.deliverAll givens)) := by
  have hc : d.channel = none := hd.parted hi
  refine ⟨⟨fun hidle given hgiven hopens => ?_, fun hopen heard hheard => ?_⟩,
    fun hopen => deliverAll_passedBy hi hc haddress hopen⟩
  · obtain ⟨heard, rest, rfl⟩ := List.append_of_mem hgiven
    have hstill := hidle (heard ++ [given]) ⟨rest, by simp⟩
    rw [deliverAll_append] at hstill
    exact deliver_opens hopens hstill
  · have hmem := hheard.subset
    exact (deliverAll_passedBy hi hc (fun g hg => haddress g (hmem hg))
      fun g hg => hopen g (hmem hg)).arbitration.trans hi

/-- The computer saves a file to drive nine, and drive eight empties its own file of that name. -/
theorem overheard_open_empties :
    let d : Drive Disk := (Drive.new 8).operate [.attach ⟨"/", #[⟨"A.PRG", #[1, 2]⟩], none, [], none⟩]
    let givens : List Handover :=
      [⟨true, listenTo 9⟩, ⟨true, openSecondary 1⟩, ⟨false, 0x41⟩, ⟨true, Serial.unlisten⟩]
    Reached d ∧ d.arbitration = .idle ∧ (∀ given ∈ givens, ¬given.Addresses d.device) ∧
      (d.deliverAll (givens.take 2)).arbitration = .opening ∧
      (d.deliverAll givens).storage.map (·.files) = some #[⟨"A.PRG", #[]⟩] := by
  refine ⟨⟨8, _, rfl⟩, rfl, by decide, by decide, by decide +kernel⟩

/-- Drive eight, on a disk that records what is asked of it, while the computer saves to drive nine over a
channel that needs no opening. -/
theorem overheard_idle_iff_save :
    let d : Drive (Recorded Disk) := (Drive.new 8).operate [.attach ⟨{}, []⟩]
    let givens : List Handover :=
      [⟨true, listenTo 9⟩, ⟨true, secondary 1⟩, ⟨false, 0x41⟩, ⟨true, Serial.unlisten⟩]
    d.arbitration = .idle ∧ (∀ given ∈ givens, ¬given.Addresses d.device) ∧
      (∀ heard, heard <+: givens → (d.deliverAll heard).arbitration = .idle) ∧
      (d.deliverAll givens).storage.map (·.calls) = some [] := by
  intro d givens
  have hd : Reached d := ⟨8, _, rfl⟩
  have haddress : ∀ given ∈ givens, ¬given.Addresses d.device := by decide
  have hopen : ∀ given ∈ givens, ¬given.Opens := by decide
  obtain ⟨hidle, hpasses⟩ := overheard_idle_iff hd rfl haddress
  refine ⟨rfl, haddress, hidle.2 hopen, ?_⟩
  rw [(hpasses hopen).storage]
  rfl

end Vic20.Drive
