import Vic20.Proofs.Drive.Bits
import Vic20.Proofs.Drive.Signal
import Vic20.Storage.Disk

/-! The delivery of commands at any pace. The computer pulls the clock and attention, and then sends bytes
bit by bit, with any number of ticks of any length between its changes of the lines. Each such interval is
bounded by the time after which a bit is given up, and the lead of a byte by the time after which it would
pass for the last. Then, from whatever the drive was in the middle of, its command layer is handed each byte
once, in order and under attention, and data is held after each (`commands_delivered`). -/

namespace Vic20.Drive

/-- One or more ticks after a change of the lines, of at most 1024 cycles together. -/
structure Interval where
  first : Nat
  rest : List Nat := []
  total_le : first + rest.sum ≤ 1024 := by decide

def Interval.total (i : Interval) : Nat := i.first + i.rest.sum

def Interval.signals (i : Interval) : List Signal := .pass i.first :: passes i.rest

/-- How long the clock is let go for a bit, and then pulled. -/
structure BitPace where
  released : Interval
  pulled : Interval

/-- The pace of a byte: the clock is let go and pulled before it, then for each bit, and at last data is
let go. -/
structure Pace where
  ready : Interval
  start : Interval
  bits : Vector BitPace 8
  done : Interval
  lead_le : ready.total + start.total ≤ 256 := by decide

def bitSignals (pulled : Bool) (p : BitPace) : List Signal :=
  .data pulled :: .clk false :: (p.released.signals ++ .clk true :: p.pulled.signals)

/-- Bits of a byte, least significant first. A zero pulls data. -/
def bitsSignals (v : UInt8) : List BitPace → List Signal
  | [] => []
  | p :: ps => bitSignals (v &&& 1 == 0) p ++ bitsSignals (v >>> 1) ps

def byteSignals (v : UInt8) (p : Pace) : List Signal :=
  (.clk false :: p.ready.signals) ++ (.clk true :: p.start.signals) ++ bitsSignals v p.bits.toList ++
    (.data false :: p.done.signals)

/-- Attention, and then bytes. -/
def commandSignals (attention : Interval) (script : List (UInt8 × Pace)) : List Signal :=
  (.clk true :: .atn true :: attention.signals) ++ script.flatMap fun b => byteSignals b.1 b.2

variable {σ : Type} [Storage σ] {d : Drive σ} {w w' : Wire}

theorem Interval.rest_sum_le (i : Interval) : i.rest.sum ≤ 1024 :=
  Nat.le_trans (Nat.le_add_left _ _) i.total_le

/-- The first tick of an interval changes the wire, and the others bide. -/
theorem watch_interval (i : Interval) (ht : (d.onWire w).tick i.first = d.onWire w') (hs : Steady d w)
    (hq : w.link ≠ .dataAccepted ∨ w.data = true) (hs' : Steady d w') (he : w'.elapsed = 0)
    (hb : Bides d { w' with elapsed := i.rest.sum }) :
    (d.onWire w).watch i.signals = ([], d.onWire { w' with elapsed := i.rest.sum }) := by
  have h := watch_bides hs' i.rest (by rwa [he, Nat.zero_add])
  rw [he, Nat.zero_add] at h
  rw [Interval.signals, watch_pass hs hq, ht, h]

/-! ### Bits -/

/-- A bit is taken while the clock is let go. -/
theorem watch_released (i : Interval) (pulled : Bool) (hs : Steady d w) (hl : w.link = .waitDataValid) :
    (d.onWire w).watch (.data pulled :: .clk false :: i.signals) = ([], d.onWire { w with
      clk := false, data := pulled, byte := w.byte ||| (if pulled then 0 else 1) <<< w.bit
      bit := w.bit + 1, link := .waitDataInvalid, elapsed := i.rest.sum }) := by
  rw [watch_data, watch_clk]
  have ht := tick_bit (n := i.first) (w := { w with data := pulled, clk := false }) hs hl rfl
  exact watch_interval i ht hs (.inl (by simp [hl])) hs rfl ⟨rfl, i.rest_sum_le⟩

/-- The wire with a bit taken and the clock pulled after it. -/
def Wire.bitTaken (w : Wire) (pulled : Bool) (elapsed : Nat) : Wire :=
  { w with
    clk := true, data := pulled, byte := w.byte ||| (if pulled then 0 else 1) <<< w.bit
    bit := w.bit + 1, link := .waitDataInvalid, elapsed }

theorem watch_bitSignals (p : BitPace) (pulled : Bool) (hs : Steady d w) (hl : w.link = .waitDataValid) :
    (d.onWire w).watch (bitSignals pulled p) =
      (d.onWire (w.bitTaken pulled p.released.rest.sum)).watch p.pulled.signals := by
  unfold bitSignals
  rw [← List.cons_append, ← List.cons_append, watch_append_silent (watch_released p.released pulled hs hl),
    watch_clk]
  rfl

/-- A bit that is not the last. -/
theorem watch_bit (p : BitPace) (pulled : Bool) (hs : Steady d w) (hl : w.link = .waitDataValid)
    (hb : w.bit + 1 ≠ 8) :
    (d.onWire w).watch (bitSignals pulled p) = ([], d.onWire { w with
      clk := true, data := pulled, byte := w.byte ||| (if pulled then 0 else 1) <<< w.bit
      bit := w.bit + 1, elapsed := p.pulled.rest.sum }) := by
  rw [watch_bitSignals p pulled hs hl]
  have ht := tick_bitEnd (d := d) (n := p.pulled.first) (w := w.bitTaken pulled p.released.rest.sum) hs rfl rfl
  rw [Wire.bitTaken, if_neg hb, ← hl] at ht
  refine watch_interval p.pulled ht hs (.inl (by simp)) hs rfl ?_
  simp only [Bides, hl, true_and]
  exact p.pulled.rest_sum_le

/-- The last bit completes the byte as soon as the clock is seen pulled. -/
theorem watch_lastBit (p : BitPace) (pulled : Bool) (hs : Steady d w) (hl : w.link = .waitDataValid)
    (hb : w.bit + 1 = 8) :
    (d.onWire w).watch (bitSignals pulled p) = (d.onWire { w with
      clk := true, data := pulled, byte := w.byte ||| (if pulled then 0 else 1) <<< w.bit
      bit := 8, link := .dataAccepted, elapsed := 0 }).watch (passes p.pulled.rest) := by
  have ht := tick_bitEnd (d := d) (n := p.pulled.first) (w := w.bitTaken pulled p.released.rest.sum) hs rfl rfl
  have hq : (w.bitTaken pulled p.released.rest.sum).link ≠ .dataAccepted := by simp [Wire.bitTaken]
  rw [watch_bitSignals p pulled hs hl, Interval.signals,
    watch_pass (w := w.bitTaken pulled p.released.rest.sum) hs (.inl hq), ht]
  simp only [Wire.bitTaken, hb, if_true]

/-- The wire with all bits of a byte taken. -/
def Wire.whole (w : Wire) (v : UInt8) : Wire :=
  { w with
    clk := true, data := v >>> 7 &&& 1 == 0, bit := 8, byte := v, link := .dataAccepted, elapsed := 0 }

/-- The bits from the `k`-th on complete the byte. -/
theorem watch_bits (v : UInt8) (p : BitPace) (ps : List BitPace) (k : Nat) (hk : k + ps.length = 7)
    (hs : Steady d w) (hl : w.link = .waitDataValid) (hbit : w.bit = UInt8.ofNat k)
    (hbyte : w.byte = lowBits v k) :
    (d.onWire w).watch (bitsSignals (v >>> UInt8.ofNat k) (p :: ps)) =
      (d.onWire (w.whole v)).watch (passes ((p :: ps).getLast (by simp)).pulled.rest) := by
  induction ps generalizing p k w with
  | nil =>
    obtain rfl : k = 7 := by simpa using hk
    have hnext := lowBits_succ v (k := 7) (by decide)
    rw [← hbyte, ← hbit, lowBits_eight] at hnext
    rw [bitsSignals, bitsSignals, List.append_nil, watch_lastBit p _ hs hl (by rw [hbit]; decide), ← hbit,
      hnext]
    rw [hbit]
    rfl
  | cons q ps ih =>
    rw [List.length_cons] at hk
    have hb : w.bit + 1 = UInt8.ofNat (k + 1) := by rw [hbit, ofNat_add_one]
    have hb8 : w.bit + 1 ≠ 8 := hb ▸ ofNat_ne_eight (by omega)
    have hnext := lowBits_succ v (k := k) (by omega)
    rw [← hbyte, ← hbit] at hnext
    rw [bitsSignals, watch_append_silent (watch_bit p _ hs hl hb8), ← hbit, hnext, hb, hbit,
      shiftRight_succ v (by omega), List.getLast_cons (by simp)]
    exact ih q (k + 1) (by omega) hs hl rfl rfl

/-! ### Bytes -/

/-- Attention, a clock held by the computer and data by the drive: where a byte begins and where it ends. -/
structure Held (w : Wire) : Prop where
  atn : w.atn = true
  seen : w.seenAtn = true
  clk : w.clk = true
  clkOut : w.clkOut = false
  dataOut : w.dataOut = true
  link : w.link = .senderProbing ∨ w.link = .turnAround

omit [Storage σ] in
theorem Held.steady (h : Held w) : Steady d w := ⟨h.seen.trans h.atn.symm, by simp [h.atn]⟩

omit [Storage σ] in
theorem Held.bides (h : Held w) (n : Nat) : Bides d { w with elapsed := n } := by
  rcases h.link with hl | hl <;> simp [Bides, hl, h.clk]

/-- Data makes no difference to a drive that holds it. -/
theorem Held.onData (h : Held w) (pulled : Bool) : Held { w with data := pulled } :=
  ⟨h.atn, h.seen, h.clk, h.clkOut, h.dataOut, h.link⟩

theorem Held.onElapsed (h : Held w) (n : Nat) : Held { w with elapsed := n } :=
  ⟨h.atn, h.seen, h.clk, h.clkOut, h.dataOut, h.link⟩

theorem Held.watch_passes (h : Held w) (ticks : List Nat) :
    (d.onWire w).watch (passes ticks) = ([], d.onWire { w with elapsed := w.elapsed + ticks.sum }) :=
  watch_bides h.steady ticks (h.bides _)

/-- A whole byte under attention that has not been acknowledged yet. -/
structure Pending (w : Wire) : Prop where
  atn : w.atn = true
  seen : w.seenAtn = true
  clk : w.clk = true
  clkOut : w.clkOut = false
  last : w.last = false
  link : w.link = .dataAccepted

omit [Storage σ] in
theorem Pending.steady (h : Pending w) : Steady d w := ⟨h.seen.trans h.atn.symm, by simp [h.atn]⟩

theorem Pending.onData (h : Pending w) (pulled : Bool) (n : Nat) :
    Pending { w with data := pulled, elapsed := n } :=
  ⟨h.atn, h.seen, h.clk, h.clkOut, h.last, h.link⟩

/-- Where a drive with a pending byte is after the byte. -/
def Wire.heard (d : Drive σ) (w : Wire) : Wire :=
  if d.Turns w.byte then w.acknowledged.turned else w.acknowledged

omit [Storage σ] in
theorem Pending.held (h : Pending w) (d : Drive σ) : Held (w.heard d) := by
  unfold Wire.heard
  split_ifs
  · exact ⟨h.atn, h.seen, h.clk, h.clkOut, rfl, .inr rfl⟩
  · exact ⟨h.atn, h.seen, h.clk, h.clkOut, rfl, .inl (by simp [Wire.acknowledged, h.last])⟩

omit [Storage σ] in
theorem Pending.heard_link (h : Pending w) :
    (w.heard d).link = if d.Turns w.byte then .turnAround else .senderProbing := by
  unfold Wire.heard
  split_ifs
  · rfl
  · simp [Wire.acknowledged, h.last]

omit [Storage σ] in
theorem heard_elapsed : (w.heard d).elapsed = 0 := by
  unfold Wire.heard
  split_ifs <;> rfl

omit [Storage σ] in
theorem heard_onData (pulled : Bool) (n : Nat) :
    ({ w with data := pulled, elapsed := n } : Wire).heard d = { w.heard d with data := pulled } := by
  unfold Wire.heard
  split_ifs <;> rfl

/-- A byte is handed over at the first tick that finds data let go. -/
theorem watch_accept (h : Pending w) (hd : w.data = false) (n : Nat) (ticks : List Nat) :
    (d.onWire w).watch (.pass n :: passes ticks) =
      ([⟨true, w.byte⟩], (d.command w.byte).onWire { w.heard d with elapsed := ticks.sum }) := by
  have ht : (d.onWire w).tick n = (d.command w.byte).onWire (w.heard d) := by
    rw [tick_accept h.steady h.link hd, receive_onWire]
    simp [hear, Wire.heard, Wire.acknowledged, h.atn]
  have hpasses := (h.held d).watch_passes (d := d.command w.byte) ticks
  rw [heard_elapsed, Nat.zero_add] at hpasses
  rw [watch, handover_steady h.steady, signal, ht, hpasses]
  simp [h.link, hd, h.atn]

/-- Data that is still pulled holds the byte back until it is let go. -/
theorem watch_done_pulled (h : Pending w) (hd : w.data = true) (ticks : List Nat) (i : Interval) :
    (d.onWire w).watch (passes ticks ++ .data false :: i.signals) = ([⟨true, w.byte⟩],
      (d.command w.byte).onWire { w.heard d with data := false, elapsed := i.rest.sum }) := by
  have hbides := watch_bides (d := d) h.steady ticks (by simp [Bides, h.link, hd])
  have haccept := watch_accept (d := d) (h.onData false (w.elapsed + ticks.sum)) rfl i.first i.rest
  rw [heard_onData] at haccept
  rw [watch_append_silent hbides, watch_data]
  exact haccept

/-- Data let go of for the last bit has the byte taken as soon as the drive looks. -/
theorem watch_done_released (h : Pending w) (hd : w.data = false) (ticks : List Nat) (i : Interval) :
    ∃ n, (d.onWire w).watch (passes ticks ++ .data false :: i.signals) = ([⟨true, w.byte⟩],
      (d.command w.byte).onWire { w.heard d with data := false, elapsed := n }) := by
  have hw : { w.heard d with data := false } = w.heard d := by rw [← heard_onData false w.elapsed, ← hd]
  cases ticks with
  | nil =>
    -- The drive has not looked since the clock was pulled, and the byte is still pending.
    have haccept := watch_accept (d := d) h hd i.first i.rest
    refine ⟨i.rest.sum, ?_⟩
    rw [← hw] at haccept
    rw [← haccept, passes, List.map_nil, List.nil_append, watch_data, ← hd]
    rfl
  | cons t ticks =>
    -- The first tick has taken the byte. All later ones find a drive that holds data.
    have hrest := (((h.held d).onData false).onElapsed ticks.sum).watch_passes (d := d.command w.byte)
      (i.first :: i.rest)
    rw [List.sum_cons] at hrest
    exact ⟨_, watch_append (watch_accept h hd t ticks) ((watch_data _ _).trans hrest)⟩

/-- Letting go of data acknowledges a byte, unless it was let go of for the last bit and the drive has
looked since. -/
theorem watch_done (h : Pending w) (ticks : List Nat) (i : Interval) :
    ∃ w', (d.onWire w).watch (passes ticks ++ .data false :: i.signals) =
        ([⟨true, w.byte⟩], (d.command w.byte).onWire w') ∧
      Held w' ∧ w'.link = if d.Turns w.byte then .turnAround else .senderProbing := by
  obtain ⟨n, hdone⟩ : ∃ n, (d.onWire w).watch (passes ticks ++ .data false :: i.signals) =
      ([⟨true, w.byte⟩], (d.command w.byte).onWire { w.heard d with data := false, elapsed := n }) := by
    cases hd : w.data with
    | true => exact ⟨_, watch_done_pulled h hd ticks i⟩
    | false => exact watch_done_released h hd ticks i
  exact ⟨_, hdone, ((h.held d).onData false).onElapsed n, h.heard_link⟩

/-- The wire at the beginning of a byte. -/
def Wire.begun (w : Wire) (elapsed : Nat) : Wire :=
  { w with dataOut := false, last := false, bit := 0, byte := 0, link := .waitDataValid, elapsed }

/-- The clock let go of and pulled again begins a byte, if it is pulled in time. -/
theorem watch_lead (h : Held w) (hl : w.link = .senderProbing) (ready start : Interval)
    (hlead : ready.total + start.total ≤ 256) :
    (d.onWire w).watch ((.clk false :: ready.signals) ++ (.clk true :: start.signals)) =
      ([], d.onWire (w.begun start.rest.sum)) := by
  unfold Interval.total at hlead
  have ht := tick_ready (n := ready.first) (d := d) (w := { w with clk := false }) h.steady hl rfl
  have hready := watch_interval ready ht h.steady (.inl (by simp [hl])) h.steady rfl
    ⟨rfl, show ready.rest.sum ≤ eoiTimeout by unfold eoiTimeout; omega⟩
  have ht := tick_begin (n := start.first) (d := d)
    (w := { w with
      clk := true, dataOut := false, last := false, link := .readyToReceive, elapsed := ready.rest.sum })
    h.steady rfl rfl (show ready.rest.sum + start.first ≤ eoiTimeout by unfold eoiTimeout; omega)
  have hstart := watch_interval start ht h.steady (.inl (by simp)) h.steady rfl ⟨rfl, start.rest_sum_le⟩
  rw [watch_append_silent ((watch_clk w false).trans hready), watch_clk, hstart, ← h.clk]
  rfl

/-- One byte is handed over once, as it is. -/
theorem watch_byte (h : Held w) (hl : w.link = .senderProbing) (v : UInt8) (p : Pace) :
    ∃ w', (d.onWire w).watch (byteSignals v p) = ([⟨true, v⟩], (d.command v).onWire w') ∧
      Held w' ∧ w'.link = if d.Turns v then .turnAround else .senderProbing := by
  obtain ⟨b, bs, hbits⟩ : ∃ b bs, p.bits.toList = b :: bs :=
    List.exists_cons_of_length_eq_add_one (by simp : p.bits.toList.length = 7 + 1)
  have hlen : 0 + bs.length = 7 := by
    have := congrArg List.length hbits
    simp at this
    omega
  have hv := watch_bits v b bs 0 hlen (d := d) (w := w.begun p.start.rest.sum) h.steady rfl rfl
    (lowBits_zero v).symm
  have h0 : v >>> UInt8.ofNat 0 = v := UInt8.shiftRight_zero
  rw [h0] at hv
  have hpending : Pending ((w.begun p.start.rest.sum).whole v) := ⟨h.atn, h.seen, rfl, h.clkOut, rfl, rfl⟩
  obtain ⟨w', hdone, hw'⟩ := watch_done (d := d) hpending ((b :: bs).getLast (by simp)).pulled.rest p.done
  refine ⟨w', ?_, hw'⟩
  rw [byteSignals, hbits, List.append_assoc,
    watch_append_silent (watch_lead h hl p.ready p.start p.lead_le), watch_append_of_eq hv]
  exact hdone

/-! ### Commands -/

/-- A secondary address that turns the link around is the last byte. -/
def TurnsLast (d : Drive σ) : List UInt8 → Prop
  | [] => True
  | v :: vs => (d.Turns v → vs = []) ∧ (d.command v).TurnsLast vs

theorem TurnsLast.take {vs : List UInt8} (h : d.TurnsLast vs) (k : Nat) : d.TurnsLast (vs.take k) := by
  induction vs generalizing d k with
  | nil => simpa using h
  | cons v vs ih =>
    cases k with
    | zero => trivial
    | succ k =>
      obtain ⟨hv, hvs⟩ := h
      exact ⟨fun ht => by simp [hv ht], ih hvs k⟩

/-- Attention takes the drive out of whatever it was doing. -/
theorem watch_attention (hs : w.seenAtn = false) (i : Interval) :
    ∃ w', (d.onWire w).watch (.clk true :: .atn true :: i.signals) = ([], d.onWire w') ∧
      Held w' ∧ w'.link = .senderProbing := by
  have hset : (d.onWire { w with clk := true }).signal (.atn true) =
      d.onWire { w with clk := true, atn := true } := by
    simp only [signal, setAtn, Bool.not_true, Bool.and_false, Bool.false_and]
    rfl
  have ht := tick_attention (d := d) (n := i.first) (w := { w with clk := true, atn := true }) rfl hs rfl
  have hk : Held { w with
      atn := true, clk := true, seenAtn := true, dataOut := true, clkOut := false, link := .senderProbing
      elapsed := i.first } := ⟨rfl, rfl, rfl, rfl, rfl, .inl rfl⟩
  refine ⟨_, ?_, hk.onElapsed (i.first + i.rest.sum), rfl⟩
  rw [watch_clk, watch_cons rfl, hset, Interval.signals, watch_cons ?_, signal, ht,
    hk.watch_passes (d := d) i.rest]
  simp only [handover, answerAttention_onWire, Wire.answered, hs]
  rfl

/-- From where a byte may begin, every byte is handed over in turn. -/
theorem watch_script (h : Held w) (script : List (UInt8 × Pace))
    (hl : w.link = .senderProbing ∨ script = []) (ht : d.TurnsLast (script.map Prod.fst)) :
    ∃ w', (d.onWire w).watch (script.flatMap fun b => byteSignals b.1 b.2) =
        (script.map fun b => ⟨true, b.1⟩, ((script.map Prod.fst).foldl command d).onWire w') ∧ Held w' := by
  induction script generalizing d w with
  | nil => exact ⟨w, rfl, h⟩
  | cons b script ih =>
    obtain ⟨hlast, ht⟩ := ht
    obtain ⟨w₁, hb, h₁, hl₁⟩ := watch_byte (d := d) h (hl.resolve_right (by simp)) b.1 b.2
    have hl₁ : w₁.link = .senderProbing ∨ script = [] := by
      by_cases hv : d.Turns b.1
      · exact .inr (by simpa using hlast hv)
      · exact .inl (hl₁.trans (if_neg hv))
    obtain ⟨w', hw', h'⟩ := ih h₁ hl₁ ht
    exact ⟨w', watch_append hb hw', h'⟩

/-- Whatever a drive was in the middle of, commands reach it at any pace. Each byte is handed over exactly
once, in order and under attention. The work of the drive is that of the commands, and data is held after
each of them. -/
theorem commands_delivered (d : Drive σ) (hseen : d.seenAtn = false) (attention : Interval)
    (script : List (UInt8 × Pace)) (ht : d.TurnsLast (script.map Prod.fst)) (k : Nat) :
    ∃ e, d.watch (commandSignals attention (script.take k)) =
        ((script.take k).map fun b => ⟨true, b.1⟩, e) ∧
      SameWork (((script.take k).map Prod.fst).foldl command d) e ∧ e.dataOut = true := by
  obtain ⟨w, ha, hw, hl⟩ := watch_attention (d := d) (w := d.wire) hseen attention
  have ht : d.TurnsLast ((script.take k).map Prod.fst) := by
    rw [List.map_take]
    exact ht.take k
  obtain ⟨w', hs, hw'⟩ := watch_script hw (script.take k) (.inl hl) ht
  exact ⟨_, watch_append ha hs, sameWork_onWire _ _, hw'.dataOut⟩

/-- A drive that has been left in the middle of a bit. -/
def stalled : Drive Disk := { device := 8, link := .sendDataValid, arbitration := .talking, clkOut := true }

def evenPace : Pace where
  ready := ⟨60, [40], by decide⟩
  start := ⟨30, [], by decide⟩
  bits := Vector.replicate 8 ⟨⟨25, [], by decide⟩, ⟨10, [15], by decide⟩⟩
  done := ⟨100, [900], by decide⟩

theorem commands_delivered_stalled :
    stalled.seenAtn = false ∧ stalled.TurnsLast [0x28, 0x61] ∧
      ∃ e, stalled.watch (commandSignals ⟨1000, [], by decide⟩ [(0x28, evenPace), (0x61, evenPace)]) =
          ([⟨true, 0x28⟩, ⟨true, 0x61⟩], e) ∧
        SameWork ((stalled.command 0x28).command 0x61) e ∧ e.dataOut = true := by
  have ht : stalled.TurnsLast [0x28, 0x61] := ⟨by decide, by decide, trivial⟩
  exact ⟨rfl, ht, commands_delivered stalled rfl ⟨1000, [], by decide⟩
    [(0x28, evenPace), (0x61, evenPace)] ht 2⟩

end Vic20.Drive
