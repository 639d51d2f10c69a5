import Vic20.Proofs.Drive.Signal
import Vic20.Proofs.Drive.Work

/-! The lines that a drive holds. The state of its link tells which of them these can be and how many bits
have been counted, and every step of the link keeps to that. A drive that is not ticked has let go of both
and awaits attention, so that a tick would not change it. -/

namespace Vic20.Drive

/-- What a state of the link says of the lines held and of the bits counted. -/
def Link.Allows (link : Link) (clkOut dataOut : Bool) (bit : UInt8) : Prop :=
  match link with
  | .idle => clkOut = false ∧ dataOut = false
  | .senderProbing | .turnAround => clkOut = false ∧ dataOut = true
  | .readyToReceive | .dataAccepted | .waitReceiverReady => clkOut = false
  | .waitDataValid => clkOut = false ∧ bit ≤ 7
  | .waitDataInvalid | .sendDataValid => clkOut = false ∧ 1 ≤ bit ∧ bit ≤ 8
  | .readyToSend | .waitEndOfEoiAck => clkOut = false ∧ bit = 0
  | .sendDataInvalid => bit ≤ 7
  | .goToIdle | .turnAroundReady | .waitDataAccepted => True

def Wire.Sound (w : Wire) : Prop := w.link.Allows w.clkOut w.dataOut w.bit

theorem bit_add {bit : UInt8} (h : bit ≤ 7) : 1 ≤ bit + 1 ∧ bit + 1 ≤ 8 := by
  simp only [UInt8.le_iff_toNat_le, UInt8.toNat_add, UInt8.reduceToNat] at *
  omega

theorem bit_le {bit : UInt8} (h : bit ≤ 8) (hne : bit ≠ 8) : bit ≤ 7 := by
  have hne : bit.toNat ≠ 8 := fun he => hne (UInt8.toNat_inj.1 he)
  simp only [UInt8.le_iff_toNat_le, UInt8.reduceToNat] at *
  omega

variable {σ : Type} [Storage σ] {d : Drive σ} {w : Wire}

omit [Storage σ] in
theorem setCurrent_wire (d : Drive σ) (c : Channel) : (d.setCurrent c).wire = d.wire := by
  unfold setCurrent
  cases d.channel <;> rfl

omit [Storage σ] in
/-- To use the storage reaches nothing else. -/
theorem useStorage_keeps {α : Type} (d : Drive σ) (f : σ → Except Storage.Fault α × σ)
    (wrap : Storage.Fault → StorageError) :
    ∃ r storage, d.useStorage f wrap = (r, { d with storage }) := by
  unfold useStorage
  split
  · exact ⟨_, d.storage, rfl⟩
  · exact ⟨_, _, rfl⟩

/-- A fetch puts a byte into transit and leaves the lines alone. -/
theorem fetch_wire (d : Drive σ) : ∃ byte last, d.fetch.wire = { d.wire with byte, last } := by
  unfold fetch
  split
  · exact ⟨_, _, setCurrent_wire _ _⟩
  · rename_i file _ _
    obtain ⟨r, storage, hr⟩ := useStorage_keeps d (Storage.read · file) .reading
    rw [hr]
    cases r with
    | ok given => exact ⟨_, _, setCurrent_wire _ _⟩
    | error e => exact ⟨d.byte, d.last, rfl⟩
  · exact ⟨d.byte, d.last, rfl⟩

/-- An acknowledged byte has data held, also if it turns the link around. -/
theorem acknowledged_sound (h : w.clkOut = false) : w.acknowledged.Sound ∧ w.acknowledged.turned.Sound := by
  refine ⟨?_, h, rfl⟩
  unfold Wire.acknowledged Wire.Sound
  cases w.last
  · exact ⟨h, rfl⟩
  · exact trivial

/-- A step of the link leads from lines that its state allows to such lines, and leaves attention alone. -/
theorem step_wire (d : Drive σ) (h : w.Sound) :
    (d.onWire w).step.wire.Sound ∧ (d.onWire w).step.wire.atn = w.atn := by
  have hlines : w.link.Allows w.clkOut w.dataOut w.bit := h
  -- In each case the drive bides its time or enters a state that allows what it then holds.
  cases hl : w.link <;> simp only [hl, Link.Allows] at hlines
  case dataAccepted =>
    by_cases hd : w.data = true
    · rw [step_bides (by simpa [Bides, hl] using hd)]
      exact ⟨h, rfl⟩
    · have hsound := acknowledged_sound hlines
      rw [step_accept hl (by simpa using hd), receive_onWire, wire_onWire]
      split_ifs
      · exact ⟨hsound.2, rfl⟩
      · exact ⟨hsound.1, rfl⟩
  case waitReceiverReady =>
    by_cases hd : w.data = true
    · rw [step_bides (by simpa [Bides, hl] using hd)]
      exact ⟨h, rfl⟩
    · obtain ⟨byte, last, hfetch⟩ := fetch_wire (d.onWire { w with link := .readyToSend, elapsed := 0 })
      have hstep : (d.onWire w).step.wire = { w with
          link := .readyToSend, elapsed := 0, bit := 0, byte, last } := by
        unfold step
        simp only [onWire_link, hl]
        rw [onWire_data, if_neg hd]
        exact congrArg (fun w : Wire => { w with bit := 0 }) hfetch
      rw [hstep]
      exact ⟨⟨hlines, rfl⟩, rfl⟩
  all_goals
    unfold step
    simp only [onWire_link, hl]
  case idle =>
    split_ifs
    · exact ⟨⟨hlines.1, rfl⟩, rfl⟩
    · exact ⟨h, rfl⟩
  case senderProbing =>
    split_ifs
    · exact ⟨h, rfl⟩
    · exact ⟨hlines.1, rfl⟩
  case readyToReceive =>
    split_ifs
    · exact ⟨hlines, rfl⟩
    · exact ⟨hlines, rfl⟩
    · exact ⟨⟨hlines, show (0 : UInt8) ≤ 7 by decide⟩, rfl⟩
    · exact ⟨trivial, rfl⟩
    · exact ⟨h, rfl⟩
  case waitDataValid =>
    split_ifs
    · exact ⟨⟨hlines.1, bit_add hlines.2⟩, rfl⟩
    · exact ⟨trivial, rfl⟩
    · exact ⟨h, rfl⟩
  case waitDataInvalid =>
    split_ifs with _ hb
    · exact ⟨hlines.1, rfl⟩
    · exact ⟨⟨hlines.1, bit_le hlines.2.2 hb⟩, rfl⟩
    · exact ⟨trivial, rfl⟩
    · exact ⟨h, rfl⟩
  case goToIdle =>
    split_ifs
    · exact ⟨⟨rfl, rfl⟩, rfl⟩
    · exact ⟨h, rfl⟩
  case turnAround =>
    split_ifs
    · exact ⟨h, rfl⟩
    · exact ⟨trivial, rfl⟩
  case turnAroundReady =>
    split_ifs
    · exact ⟨rfl, rfl⟩
    · exact ⟨h, rfl⟩
  case readyToSend =>
    split_ifs
    · exact ⟨trivial, rfl⟩
    · exact ⟨h, rfl⟩
    · exact ⟨hlines, rfl⟩
    · exact ⟨h, rfl⟩
    · exact ⟨show w.bit ≤ 7 from hlines.2 ▸ by decide, rfl⟩
    · exact ⟨h, rfl⟩
  case waitEndOfEoiAck =>
    split_ifs
    · exact ⟨h, rfl⟩
    · exact ⟨show w.bit ≤ 7 from hlines.2 ▸ by decide, rfl⟩
  case sendDataInvalid =>
    split_ifs
    · exact ⟨⟨rfl, bit_add hlines⟩, rfl⟩
    · exact ⟨h, rfl⟩
  case sendDataValid =>
    split_ifs with _ hb
    · exact ⟨trivial, rfl⟩
    · exact ⟨bit_le hlines.2.2 hb, rfl⟩
    · exact ⟨h, rfl⟩
  case waitDataAccepted =>
    split_ifs
    · exact ⟨trivial, rfl⟩
    · exact ⟨trivial, rfl⟩
    · exact ⟨h, rfl⟩

theorem tick_wire (d : Drive σ) (h : d.wire.Sound) (n : Nat) :
    (d.tick n).wire.Sound ∧ (d.tick n).atn = d.atn := by
  have hanswered : d.wire.answered.Sound ∧ d.wire.answered.atn = d.atn := by
    unfold Wire.answered
    split_ifs
    · exact ⟨⟨rfl, rfl⟩, rfl⟩
    · exact ⟨h, rfl⟩
  have htick : d.tick n = _ := tick_onWire (d := d) (w := d.wire) n
  rw [htick]
  split_ifs
  · have hstep := step_wire d (w := { d.wire.answered with elapsed := d.wire.answered.elapsed + n }) hanswered.1
    exact ⟨hstep.1, hstep.2.trans hanswered.2⟩
  · exact hanswered

omit [Storage σ] in
theorem setAtn_wire (d : Drive σ) (h : d.wire.Sound) (pulled : Bool) : (d.setAtn pulled).wire.Sound := by
  unfold setAtn
  split_ifs
  · exact ⟨rfl, rfl⟩
  · exact h

omit [Storage σ] in
theorem sameWork_setAtn (d : Drive σ) (pulled : Bool) : SameWork d (d.setAtn pulled) := by
  unfold setAtn
  split_ifs <;> rfl

/-! ### Rest -/

/-- A drive that is not ticked has let go of the bus and awaits attention. -/
def Rests (d : Drive σ) : Prop := d.active = false → d.link = .idle ∧ d.seenAtn = false

omit [Storage σ] in
theorem active_eq_false : d.active = false ↔ d.atn = false ∧ d.arbitration = .idle := by
  simp [active]

theorem fetch_arbitration (d : Drive σ) : d.fetch.arbitration = d.arbitration := by
  unfold fetch
  split
  · exact setCurrent_arbitration _ _
  · rename_i file _ _
    obtain ⟨r, storage, hr⟩ := useStorage_keeps d (Storage.read · file) .reading
    rw [hr]
    cases r with
    | ok given => exact setCurrent_arbitration _ _
    | error e => rfl
  · rfl

/-- Only a command changes what the drive is addressed for. -/
theorem tick_arbitration (h : d.atn = false) (n : Nat) : (d.tick n).arbitration = d.arbitration := by
  have hwork := tick_work d n
  have hdata : ∀ given ∈ d.handover (.pass n), given.command = false := by
    intro given hgiven
    have hatn : d.answerAttention.atn = false := by simp [answerAttention, h]
    simp only [handover] at hgiven
    split_ifs at hgiven
    · rw [List.mem_singleton.1 hgiven]
      exact hatn
    · exact absurd hgiven (List.not_mem_nil)
  cases hhand : d.handover (.pass n) with
  | nil =>
    rw [hhand] at hwork
    rcases hwork with hsame | hfetch
    · exact hsame.arbitration
    · exact hfetch.arbitration.trans (fetch_arbitration d)
  | cons given rest =>
    rw [hhand] at hwork hdata
    have hcollect : d.hear given.command given.byte = d.collect given.byte := by
      rw [hdata given List.mem_cons_self]
      rfl
    exact hwork.2.arbitration.trans ((congrArg arbitration hcollect).trans (collect_arbitration d _))

/-- A drive at rest is as a tick would leave it. -/
theorem Rests.tick_eq (h : Rests d) (hi : d.active = false) (n : Nat) : d.tick n = d := by
  obtain ⟨hatn, harb⟩ := active_eq_false.1 hi
  have hrest : d.tick n = d.onWire { d.wire with seenAtn := false } := tick_rest (w := d.wire) hatn harb
  rw [hrest, ← (h hi).2]
  rfl

theorem Rests.tick (h : Rests d) (hw : d.wire.Sound) (n : Nat) : Rests (d.tick n) := by
  intro hi
  obtain ⟨hatn, harb⟩ := active_eq_false.1 hi
  have hatn : d.atn = false := (tick_wire d hw n).2.symm.trans hatn
  have hi' : d.active = false := active_eq_false.2 ⟨hatn, (tick_arbitration hatn n).symm.trans harb⟩
  rw [h.tick_eq hi' n]
  exact h hi'

omit [Storage σ] in
/-- A drive that is not addressed comes to rest when attention ends. -/
theorem Rests.setAtn (h : Rests d) (pulled : Bool) : Rests (d.setAtn pulled) := by
  intro hi
  by_cases hlets : (d.atn && !pulled && d.arbitration == .idle) = true
  · rw [Drive.setAtn, if_pos hlets]
    exact ⟨rfl, rfl⟩
  · rw [Drive.setAtn, if_neg hlets] at hi ⊢
    obtain ⟨hatn, harb⟩ := active_eq_false.1 hi
    have hreleased : pulled = false := hatn
    have harb : d.arbitration = .idle := harb
    refine h (active_eq_false.2 ⟨?_, harb⟩)
    simpa [hreleased, harb] using hlets

end Vic20.Drive
