import Vic20.Proofs.Drive.Wire

/-! What a tick does in each state of the link. A drive that is addressed either bides its time, so that only
its clock of the link state moves on, or leaves the state by one of the transitions below. Each of these is
an equation from a wire to a wire. Only two of them reach the rest of the drive: a byte accepted goes to the
command layer, and a receiver that is ready is served the next byte. -/

namespace Vic20.Drive

variable {σ : Type} [Storage σ] {d : Drive σ} {w : Wire} {n : Nat}

/-- The wire after a look at the attention line. -/
def Wire.answered (w : Wire) : Wire :=
  if w.atn && !w.seenAtn then
    { w with seenAtn := true, dataOut := true, clkOut := false, link := .senderProbing, elapsed := 0 }
  else { w with seenAtn := w.atn }

omit [Storage σ] in
theorem answerAttention_onWire : (d.onWire w).answerAttention = d.onWire w.answered := by
  obtain ⟨atn, _, _, seenAtn, _⟩ := w
  cases atn <;> cases seenAtn <;> rfl

theorem tick_onWire (n : Nat) :
    (d.onWire w).tick n =
      if w.answered.atn || d.arbitration != .idle then
        (d.onWire { w.answered with elapsed := w.answered.elapsed + n }).step
      else d.onWire w.answered := by
  unfold tick
  rw [answerAttention_onWire]
  rfl

/-- The drive is addressed or under attention, and has seen the attention line as it is. -/
def Steady (d : Drive σ) (w : Wire) : Prop :=
  w.seenAtn = w.atn ∧ (w.atn || d.arbitration != .idle) = true

omit [Storage σ] in
theorem answered_steady (hs : Steady d w) : w.answered = w := by
  unfold Wire.answered
  rw [if_neg (by simp [hs.1])]
  exact congrArg (fun b => { w with seenAtn := b }) hs.1.symm

theorem tick_steady (hs : Steady d w) :
    (d.onWire w).tick n = (d.onWire { w with elapsed := w.elapsed + n }).step := by
  rw [tick_onWire, answered_steady hs, if_pos hs.2]

/-- Attention let go of by the last tick is as good as never seen. -/
theorem tick_seen (h : w.atn = false ∨ w.seenAtn = true) :
    (d.onWire w).tick n = (d.onWire { w with seenAtn := w.atn }).tick n := by
  have ha : w.answered = ({ w with seenAtn := w.atn } : Wire).answered := by
    unfold Wire.answered
    rcases h with h | h <;> cases hw : w.atn <;> simp_all
  rw [tick_onWire, tick_onWire, ha]

/-- A drive that is not addressed and not under attention is at rest. -/
theorem tick_rest (ha : w.atn = false) (hi : d.arbitration = .idle) :
    (d.onWire w).tick n = d.onWire { w with seenAtn := false } := by
  have h : w.answered = { w with seenAtn := false } := by simp [Wire.answered, ha]
  rw [tick_onWire, h, if_neg (by simp [ha, hi])]

/-- The first tick under attention, while the computer holds the clock. -/
theorem tick_attention (ha : w.atn = true) (hs : w.seenAtn = false) (hc : w.clk = true) :
    (d.onWire w).tick n = d.onWire { w with
      seenAtn := true, dataOut := true, clkOut := false, link := .senderProbing, elapsed := n } := by
  have h : w.answered =
      { w with seenAtn := true, dataOut := true, clkOut := false, link := .senderProbing, elapsed := 0 } := by
    simp [Wire.answered, ha, hs]
  rw [tick_onWire, h, if_pos (by simp [ha]), Nat.zero_add]
  simp only [step, onWire_clk, hc, if_true]
  rfl

/-! ### Biding -/

/-- The link stays as it is: what it waits for is not there, and there is time left. -/
def Bides (d : Drive σ) (w : Wire) : Prop :=
  match w.link with
  | .idle => w.clk = false
  | .senderProbing | .turnAround => w.clk = true
  | .readyToReceive => w.clk = false ∧ w.elapsed ≤ if w.last then eoiAckHold else eoiTimeout
  | .waitDataValid => w.clk = true ∧ w.elapsed ≤ bitTimeout
  | .waitDataInvalid => w.clk = false ∧ w.elapsed ≤ bitTimeout
  | .dataAccepted | .waitReceiverReady | .waitEndOfEoiAck => w.data = true
  | .goToIdle => w.elapsed < idleSettle
  | .turnAroundReady => w.elapsed < turnAroundDelay
  | .readyToSend =>
    if d.empty then w.elapsed ≤ emptyTimeout
    else if w.last then w.elapsed ≤ eoiSignal ∨ w.data = false
    else w.elapsed ≤ bitTime
  | .sendDataInvalid | .sendDataValid => w.elapsed ≤ bitTime
  | .waitDataAccepted => w.data = false

omit [Storage σ] in
/-- A link that bides its time has done so before. -/
theorem Bides.mono {m : Nat} (h : Bides d { w with elapsed := n }) (hm : m ≤ n) :
    Bides d { w with elapsed := m } := by
  unfold Bides at *
  simp only at h ⊢
  cases hl : w.link <;> simp only [hl] at h ⊢
  case readyToReceive | waitDataValid | waitDataInvalid => exact ⟨h.1, Nat.le_trans hm h.2⟩
  case goToIdle | turnAroundReady => exact Nat.lt_of_le_of_lt hm h
  case sendDataInvalid | sendDataValid => exact Nat.le_trans hm h
  case readyToSend =>
    split_ifs at h ⊢
    · exact Nat.le_trans hm h
    · exact h.imp_left (Nat.le_trans hm)
    · exact Nat.le_trans hm h
  all_goals exact h

/-- A receiver waits for the talker until the silence would mean something. -/
theorem step_readyToReceive (hl : w.link = .readyToReceive) (hc : w.clk = false)
    (ht : w.elapsed ≤ if w.last then eoiAckHold else eoiTimeout) : (d.onWire w).step = d.onWire w := by
  have hack : ¬(decide (w.elapsed > eoiAckHold) && w.last) = true := by
    intro hx
    simp only [Bool.and_eq_true, decide_eq_true_eq] at hx
    rw [if_pos hx.2] at ht
    omega
  have heoi : ¬(decide (w.elapsed > eoiTimeout) && !w.last) = true := by
    intro hx
    simp only [Bool.and_eq_true, decide_eq_true_eq, Bool.not_eq_true'] at hx
    rw [if_neg (by simp [hx.2])] at ht
    omega
  have hgive : ¬w.elapsed > receiveTimeout := by
    have : (if w.last = true then eoiAckHold else eoiTimeout) ≤ receiveTimeout := by split <;> decide
    omega
  unfold step
  simp only [onWire_link, hl]
  exact (if_neg hack).trans ((if_neg heoi).trans ((if_neg (by simp [hc])).trans (if_neg hgive)))

/-- A sender keeps silent before a byte: with nothing to send until it gives up, with the last byte until it
is answered. -/
theorem step_readyToSend (hl : w.link = .readyToSend)
    (ht : if d.empty then w.elapsed ≤ emptyTimeout
      else if w.last then w.elapsed ≤ eoiSignal ∨ w.data = false
      else w.elapsed ≤ bitTime) : (d.onWire w).step = d.onWire w := by
  unfold step
  simp only [onWire_link, hl]
  by_cases he : d.empty = true
  · rw [if_pos he] at ht
    exact (if_pos he).trans (if_neg (Nat.not_lt.2 ht))
  rw [if_neg he] at ht
  by_cases hlast : w.last = true
  · rw [if_pos hlast] at ht
    have hack : ¬(decide (w.elapsed > eoiSignal) && w.data) = true := by
      intro hx
      simp only [Bool.and_eq_true, decide_eq_true_eq] at hx
      rcases ht with ht | ht
      · omega
      · simp [ht] at hx
    exact (if_neg he).trans ((if_pos hlast).trans (if_neg hack))
  · rw [if_neg hlast] at ht
    exact (if_neg he).trans ((if_neg hlast).trans (if_neg (Nat.not_lt.2 ht)))

theorem step_bides (h : Bides d w) : (d.onWire w).step = d.onWire w := by
  unfold Bides at h
  cases hl : w.link <;> simp only [hl] at h
  case readyToReceive => exact step_readyToReceive hl h.1 h.2
  case readyToSend => exact step_readyToSend hl h
  all_goals
    unfold step
    simp only [onWire_link, hl]
  case idle | senderProbing | turnAround | dataAccepted | waitReceiverReady | waitEndOfEoiAck |
    waitDataAccepted => simp [h]
  case waitDataValid | waitDataInvalid =>
    exact (if_neg (by simp [h.1])).trans (if_neg (Nat.not_lt.2 h.2))
  case goToIdle | turnAroundReady => exact if_neg (Nat.not_le.2 h)
  case sendDataInvalid | sendDataValid => exact if_neg (Nat.not_lt.2 h)

theorem tick_bides (hs : Steady d w) (h : Bides d { w with elapsed := w.elapsed + n }) :
    (d.onWire w).tick n = d.onWire { w with elapsed := w.elapsed + n } := by
  rw [tick_steady hs, step_bides h]

/-! ### Receiving -/

section Receiving

variable (hs : Steady d w)

include hs

/-- The talker lets go of the clock: the drive is ready. -/
theorem tick_ready (hl : w.link = .senderProbing) (hc : w.clk = false) :
    (d.onWire w).tick n = d.onWire { w with
      dataOut := false, last := false, link := .readyToReceive, elapsed := 0 } := by
  rw [tick_steady hs]
  unfold step
  simp only [onWire_link, hl]
  exact if_neg (by simp [hc])

/-- The talker keeps silent: the byte to come is the last. -/
theorem tick_silence (hl : w.link = .readyToReceive) (ht : eoiTimeout < w.elapsed + n)
    (hlast : w.last = false) :
    (d.onWire w).tick n = d.onWire { w with dataOut := true, last := true, elapsed := 0 } := by
  rw [tick_steady hs]
  unfold step
  simp only [onWire_link, hl]
  refine (if_neg ?_).trans ((if_pos ?_).trans (by rw [← hl]; rfl))
  · simp [hlast]
  · simp [hlast, ht]

/-- The answer to the silence ends. -/
theorem tick_answer (hl : w.link = .readyToReceive) (ht : eoiAckHold < w.elapsed + n)
    (hlast : w.last = true) :
    (d.onWire w).tick n = d.onWire { w with dataOut := false, elapsed := 0 } := by
  rw [tick_steady hs]
  unfold step
  simp only [onWire_link, hl]
  refine (if_pos ?_).trans (by rw [← hl]; rfl)
  simp [hlast, ht]

/-- The talker begins a byte. -/
theorem tick_begin (hl : w.link = .readyToReceive) (hc : w.clk = true)
    (ht : w.elapsed + n ≤ if w.last then eoiAckHold else eoiTimeout) :
    (d.onWire w).tick n = d.onWire { w with bit := 0, byte := 0, link := .waitDataValid, elapsed := 0 } := by
  rw [tick_steady hs]
  unfold step
  simp only [onWire_link, hl]
  refine (if_neg ?_).trans ((if_neg ?_).trans ((if_pos hc).trans rfl))
  · cases hlast : w.last <;> simp_all
  · cases hlast : w.last <;> simp_all

/-- A bit is on the data line. -/
theorem tick_bit (hl : w.link = .waitDataValid) (hc : w.clk = false) :
    (d.onWire w).tick n = d.onWire { w with
      byte := w.byte ||| (if w.data then 0 else 1) <<< w.bit, bit := w.bit + 1
      link := .waitDataInvalid, elapsed := 0 } := by
  rw [tick_steady hs]
  unfold step
  simp only [onWire_link, hl]
  exact (if_pos (by simp [hc])).trans rfl

/-- The bit is over. -/
theorem tick_bitEnd (hl : w.link = .waitDataInvalid) (hc : w.clk = true) :
    (d.onWire w).tick n = d.onWire { w with
      link := if w.bit = 8 then .dataAccepted else .waitDataValid, elapsed := 0 } := by
  rw [tick_steady hs]
  unfold step
  simp only [onWire_link, hl]
  exact (if_pos hc).trans rfl

/-- The wire of a drive that has acknowledged a byte. -/
def Wire.acknowledged (w : Wire) : Wire :=
  { w with dataOut := true, link := if w.last then .goToIdle else .senderProbing, elapsed := 0 }

omit hs in
theorem step_accept (hl : w.link = .dataAccepted) (hd : w.data = false) :
    (d.onWire w).step = (d.onWire w.acknowledged).receive w.byte := by
  unfold step
  simp only [onWire_link, hl]
  exact (if_neg (by simp [hd])).trans rfl

/-- The drive acknowledges a byte and acts on it. -/
theorem tick_accept (hl : w.link = .dataAccepted) (hd : w.data = false) :
    (d.onWire w).tick n = (d.onWire w.acknowledged).receive w.byte := by
  rw [tick_steady hs]
  exact step_accept (w := { w with elapsed := w.elapsed + n }) hl hd

theorem tick_idle (hl : w.link = .goToIdle) (ht : idleSettle ≤ w.elapsed + n) :
    (d.onWire w).tick n = d.onWire { w with
      dataOut := false, clkOut := false, link := .idle, elapsed := 0 } := by
  rw [tick_steady hs]
  unfold step
  simp only [onWire_link, hl]
  exact (if_pos ht).trans rfl

end Receiving

/-! ### Sending -/

section Sending

variable (hs : Steady d w)

include hs

/-- The computer hands over the clock. -/
theorem tick_turn (hl : w.link = .turnAround) (hc : w.clk = false) :
    (d.onWire w).tick n = d.onWire { w with
      dataOut := false, clkOut := true, link := .turnAroundReady, elapsed := 0 } := by
  rw [tick_steady hs]
  unfold step
  simp only [onWire_link, hl]
  exact (if_neg (by simp [hc])).trans rfl

/-- The drive lets go of the clock. -/
theorem tick_offer (hl : w.link = .turnAroundReady) (ht : turnAroundDelay ≤ w.elapsed + n) :
    (d.onWire w).tick n = d.onWire { w with
      clkOut := false, link := .waitReceiverReady, elapsed := 0 } := by
  rw [tick_steady hs]
  unfold step
  simp only [onWire_link, hl]
  exact (if_pos ht).trans rfl

omit hs in
theorem step_fetch (hl : w.link = .waitReceiverReady) (hd : w.data = false) :
    (d.onWire w).step = { (d.onWire { w with link := .readyToSend, elapsed := 0 }).fetch with bit := 0 } := by
  unfold step
  simp only [onWire_link, hl]
  exact (if_neg (by simp [hd])).trans rfl

/-- The receiver is ready, and the next byte is got. -/
theorem tick_fetch (hl : w.link = .waitReceiverReady) (hd : w.data = false) :
    (d.onWire w).tick n =
      { (d.onWire { w with link := .readyToSend, elapsed := 0 }).fetch with bit := 0 } := by
  rw [tick_steady hs]
  exact step_fetch (w := { w with elapsed := w.elapsed + n }) hl hd

/-- There is nothing to send. -/
theorem tick_nothing (hl : w.link = .readyToSend) (he : d.empty = true)
    (ht : emptyTimeout < w.elapsed + n) :
    (d.onWire w).tick n = d.onWire { w with link := .goToIdle, elapsed := 0 } := by
  rw [tick_steady hs]
  unfold step
  simp only [onWire_link, hl]
  exact (if_pos he).trans ((if_pos ht).trans rfl)

/-- The receiver answers the gap before the last byte. -/
theorem tick_gapAnswered (hl : w.link = .readyToSend) (he : d.empty = false) (hlast : w.last = true)
    (ht : eoiSignal < w.elapsed + n) (hd : w.data = true) :
    (d.onWire w).tick n = d.onWire { w with link := .waitEndOfEoiAck, elapsed := 0 } := by
  rw [tick_steady hs]
  unfold step
  simp only [onWire_link, hl]
  refine (if_neg (by simp [he])).trans ((if_pos hlast).trans ((if_pos ?_).trans rfl))
  simp [ht, hd]

/-- The answer to the gap ends, and the byte begins. -/
theorem tick_gapEnd (hl : w.link = .waitEndOfEoiAck) (hd : w.data = false) :
    (d.onWire w).tick n = d.onWire { w with
      clkOut := true, link := .sendDataInvalid, elapsed := 0 } := by
  rw [tick_steady hs]
  unfold step
  simp only [onWire_link, hl]
  exact (if_neg (by simp [hd])).trans rfl

/-- A byte that is not the last begins. -/
theorem tick_sendBegin (hl : w.link = .readyToSend) (he : d.empty = false) (hlast : w.last = false)
    (ht : bitTime < w.elapsed + n) :
    (d.onWire w).tick n = d.onWire { w with
      clkOut := true, link := .sendDataInvalid, elapsed := 0 } := by
  rw [tick_steady hs]
  unfold step
  simp only [onWire_link, hl]
  exact (if_neg (by simp [he])).trans ((if_neg (by simp [hlast])).trans ((if_pos ht).trans rfl))

/-- A bit is put on the data line. -/
theorem tick_put (hl : w.link = .sendDataInvalid) (ht : bitTime < w.elapsed + n) :
    (d.onWire w).tick n = d.onWire { w with
      clkOut := false, dataOut := w.byte >>> w.bit &&& 1 == 0, bit := w.bit + 1
      link := .sendDataValid, elapsed := 0 } := by
  rw [tick_steady hs]
  unfold step
  simp only [onWire_link, hl]
  exact (if_pos ht).trans rfl

/-- The bit is over. After the last one data is let go. -/
theorem tick_putEnd (hl : w.link = .sendDataValid) (ht : bitTime < w.elapsed + n) :
    (d.onWire w).tick n = d.onWire (if w.bit = 8 then
        { w with clkOut := true, dataOut := false, link := .waitDataAccepted, elapsed := 0 }
      else { w with clkOut := true, link := .sendDataInvalid, elapsed := 0 }) := by
  rw [tick_steady hs]
  unfold step
  simp only [onWire_link, hl]
  refine (if_pos ht).trans ?_
  by_cases hb : w.bit = 8
  · rw [if_pos hb]
    exact if_pos hb
  · rw [if_neg hb]
    exact if_neg hb

/-- The receiver acknowledges the byte. -/
theorem tick_taken (hl : w.link = .waitDataAccepted) (hd : w.data = true) :
    (d.onWire w).tick n = d.onWire { w with
      link := if w.last then .goToIdle else .turnAroundReady, elapsed := 0 } := by
  rw [tick_steady hs]
  unfold step
  simp only [onWire_link, hl]
  exact (if_pos hd).trans rfl

end Sending

end Vic20.Drive
