import Mathlib.Algebra.GroupWithZero.Nat
import Vic20.Proofs.Drive.Tick

/-! The computer's side of the bus as signals to a drive: a line changes, or time passes. Watching a drive
follow signals gives its state after them and the bytes that its handshake has handed to the command layer,
each with the state of the attention line. What such a byte does is all that the drive's work knows of the
signals, but for what it fetches to be sent (`tick_work`). -/

namespace Vic20.Drive

inductive Signal where
  | atn (pulled : Bool)
  | clk (pulled : Bool)
  | data (pulled : Bool)
  | pass (cycles : Nat)
  deriving DecidableEq, Repr

/-- A byte handed to the command layer. `command` tells that attention was asserted. -/
structure Handover where
  command : Bool
  byte : UInt8
  deriving DecidableEq, Repr

variable {σ : Type} [Storage σ]

def signal (d : Drive σ) : Signal → Drive σ
  | .atn pulled => d.setAtn pulled
  | .clk pulled => d.setClk pulled
  | .data pulled => d.setData pulled
  | .pass cycles => d.tick cycles

/-- What a tick hands over: the byte of a link that waits for data to be let go, once it is. -/
def handover (d : Drive σ) : Signal → List Handover
  | .pass _ =>
    let d := d.answerAttention
    if d.active && d.link == .dataAccepted && !d.data then [⟨d.atn, d.byte⟩] else []
  | _ => []

/-- Follows signals. Gives what was handed over and the drive after them. -/
def watch (d : Drive σ) : List Signal → List Handover × Drive σ
  | [] => ([], d)
  | s :: ss =>
    let (hs, e) := (d.signal s).watch ss
    (d.handover s ++ hs, e)

def passes (ticks : List Nat) : List Signal := ticks.map .pass

/-- The drive after signals. -/
def follow (d : Drive σ) (ss : List Signal) : Drive σ := (d.watch ss).2

/-- The time that a signal takes. -/
def Signal.cycles : Signal → Nat
  | .pass cycles => cycles
  | _ => 0

/-- The time that passes with signals. -/
def cyclesIn (ss : List Signal) : Nat := (ss.map Signal.cycles).sum

theorem cyclesIn_cons (s : Signal) (ss : List Signal) : cyclesIn (s :: ss) = s.cycles + cyclesIn ss := rfl

theorem cyclesIn_append (ss ts : List Signal) : cyclesIn (ss ++ ts) = cyclesIn ss + cyclesIn ts := by
  rw [cyclesIn, List.map_append, List.sum_append, cyclesIn, cyclesIn]

section Watching

variable {d e f : Drive σ} {ss ts : List Signal} {hs hs' : List Handover}

theorem watch_append (h : d.watch ss = (hs, e)) (h' : e.watch ts = (hs', f)) :
    d.watch (ss ++ ts) = (hs ++ hs', f) := by
  induction ss generalizing d hs with
  | nil =>
    cases h
    exact h'
  | cons s ss ih =>
    rcases hr : (d.signal s).watch ss with ⟨r, e'⟩
    simp only [watch, hr, Prod.mk.injEq] at h
    obtain ⟨rfl, rfl⟩ := h
    simp only [List.cons_append, watch, ih hr, List.append_assoc]

theorem follow_append (d : Drive σ) (ss ts : List Signal) :
    d.follow (ss ++ ts) = (d.follow ss).follow ts :=
  (congrArg Prod.snd (watch_append (rfl : d.watch ss = (_, _)) (rfl : (d.watch ss).2.watch ts = (_, _))) :)

theorem watch_append_silent (h : d.watch ss = ([], e)) : d.watch (ss ++ ts) = e.watch ts :=
  watch_append h rfl

theorem watch_append_of_eq (h : d.watch ss = e.watch ts) (us : List Signal) :
    d.watch (ss ++ us) = e.watch (ts ++ us) := by
  rw [watch_append (rfl : d.watch ss = ((d.watch ss).1, (d.watch ss).2)) rfl,
    watch_append (rfl : e.watch ts = ((e.watch ts).1, (e.watch ts).2)) rfl, h]

/-- A signal that hands nothing over. -/
theorem watch_cons {s : Signal} (h : d.handover s = []) : d.watch (s :: ss) = (d.signal s).watch ss := by
  simp [watch, h]

theorem watch_clk (w : Wire) (pulled : Bool) :
    (d.onWire w).watch (.clk pulled :: ss) = (d.onWire { w with clk := pulled }).watch ss :=
  watch_cons rfl

theorem watch_data (w : Wire) (pulled : Bool) :
    (d.onWire w).watch (.data pulled :: ss) = (d.onWire { w with data := pulled }).watch ss :=
  watch_cons rfl

end Watching

variable {d : Drive σ} {w w' : Wire} {n : Nat}

omit [Storage σ] in
theorem handover_steady (hs : Steady d w) :
    (d.onWire w).handover (.pass n) =
      if w.link == .dataAccepted && !w.data then [⟨w.atn, w.byte⟩] else [] := by
  have hact : (w.atn || d.arbitration != .idle) = true := hs.2
  simp only [handover, answerAttention_onWire, answered_steady hs, active, onWire_atn, onWire_arbitration,
    hact, Bool.true_and]
  rfl

/-- A steady drive whose link does not hold a whole byte, or whose data line is held, hands nothing over. -/
theorem watch_pass (hs : Steady d w) (hq : w.link ≠ .dataAccepted ∨ w.data = true) {ss : List Signal} :
    (d.onWire w).watch (.pass n :: ss) = ((d.onWire w).tick n).watch ss := by
  refine watch_cons ?_
  rw [handover_steady hs]
  rcases hq with h | h <;> simp [h]

omit [Storage σ] in
theorem Bides.quiet (h : Bides d w) : w.link ≠ .dataAccepted ∨ w.data = true := by
  by_cases hl : w.link = .dataAccepted
  · right
    simpa [Bides, hl] using h
  · exact .inl hl

/-- While the drive bides its time it does not matter how the time is cut. -/
theorem watch_bides (hs : Steady d w) (ticks : List Nat)
    (h : Bides d { w with elapsed := w.elapsed + ticks.sum }) :
    (d.onWire w).watch (passes ticks) = ([], d.onWire { w with elapsed := w.elapsed + ticks.sum }) := by
  induction ticks generalizing w with
  | nil => rfl
  | cons t ticks ih =>
    rw [List.sum_cons, ← Nat.add_assoc] at h ⊢
    have ht : Bides d { w with elapsed := w.elapsed + t } := h.mono (Nat.le_add_right _ _)
    rw [passes, List.map_cons, watch_pass hs ht.quiet, tick_bides hs ht]
    exact ih (w := { w with elapsed := w.elapsed + t }) hs h

/-! ### The reach of a tick -/

theorem fetch_onWire (d : Drive σ) (w : Wire) : SameWork d.fetch (d.onWire w).fetch := by
  unfold fetch
  simp only [onWire_current?]
  split
  · unfold setCurrent
    rw [onWire_channel]
    cases d.channel <;> rfl
  · rw [useStorage_onWire]
    rcases d.useStorage _ _ with ⟨_ | ⟨v, file⟩, e⟩
    · rfl
    · unfold setCurrent
      simp only [onWire_channel]
      cases e.channel <;> rfl
  · rfl

/-- In any other state of the link a step stays on the wire, or fetches. -/
theorem step_work (d : Drive σ) (w : Wire) (hq : w.link ≠ .dataAccepted ∨ w.data = true) :
    SameWork d (d.onWire w).step ∨ SameWork d.fetch (d.onWire w).step := by
  unfold step
  cases hl : w.link <;> simp only [onWire_link, hl]
  case dataAccepted =>
    have hd : w.data = true := hq.resolve_left (absurd hl)
    exact .inl (by rw [onWire_data, if_pos hd]; rfl)
  case waitReceiverReady =>
    by_cases hd : w.data = true
    · exact .inl (by rw [onWire_data, if_pos hd]; rfl)
    · have h := fetch_onWire d { w with link := .readyToSend, elapsed := 0 }
      rw [onWire_data, if_neg hd]
      exact .inr (h.onWire { ((d.onWire w).enter .readyToSend).fetch.wire with bit := 0 })
  all_goals
    left
    split_ifs <;> rfl

/-- All that a tick does beyond the wire is to hand a byte over or to fetch one. -/
theorem tick_work (d : Drive σ) (n : Nat) :
    match d.handover (.pass n) with
    | [] => SameWork d (d.tick n) ∨ SameWork d.fetch (d.tick n)
    | h :: hs => hs = [] ∧ SameWork (d.hear h.command h.byte) (d.tick n) := by
  have hd : d.answerAttention = d.onWire d.wire.answered := answerAttention_onWire (w := d.wire)
  have ht : d.tick n = _ := tick_onWire (d := d) (w := d.wire) n
  simp only [handover, hd, active, onWire_atn, onWire_arbitration, onWire_link, onWire_data, onWire_byte]
  generalize d.wire.answered = w at ht
  by_cases hact : (w.atn || d.arbitration != .idle) = true
  · rw [if_pos hact] at ht
    simp only [hact, Bool.true_and]
    by_cases hq : w.link ≠ .dataAccepted ∨ w.data = true
    · rw [if_neg (by rcases hq with h | h <;> simp [h])]
      rw [ht]
      exact step_work d { w with elapsed := w.elapsed + n } hq
    · obtain ⟨hl, hdata⟩ : w.link = .dataAccepted ∧ w.data = false := by simpa using hq
      rw [if_pos (by simp [hl, hdata])]
      refine ⟨rfl, ?_⟩
      rw [ht, step_accept (w := { w with elapsed := w.elapsed + n }) hl hdata, receive_onWire]
      rfl
  · rw [if_neg hact] at ht
    rw [if_neg (by simp [hact])]
    exact .inl (ht ▸ rfl)

end Vic20.Drive
