import Vic20.Proofs.Via.Range

/-! The timers as one-shots. A timer that was loaded expires at the tick by which the count has passed, and not again
until it is loaded. Until then its counter is exact. After that timer two counts on below zero while timer one wraps to
sixteen bits at each tick, which is not seen. On the way to expiring a counter must not pass the lowest word of 32
bits. -/

namespace Vic20.Via

/-! ### Counting down -/

/-- The time that ticks take together. -/
def total (ticks : List UInt32) : Nat := (ticks.map UInt32.toNat).sum

theorem total_cons (cycles : UInt32) (ticks : List UInt32) : total (cycles :: ticks) = cycles.toNat + total ticks := rfl

theorem total_single (cycles : UInt32) : total [cycles] = cycles.toNat := rfl

theorem total_append (xs ys : List UInt32) : total (xs ++ ys) = total xs + total ys := by
  simp [total]

/-- Ticks have been made whose cycles come to the count. -/
def Reach (ticks : List UInt32) (count : Int) : Prop := ticks ≠ [] ∧ count ≤ total ticks

instance (ticks : List UInt32) (count : Int) : Decidable (Reach ticks count) := inferInstanceAs (Decidable (_ ∧ _))

theorem reach_append (xs ys : List UInt32) (count : Int) :
    Reach (xs ++ ys) count ↔ Reach xs count ∨ Reach ys (count - total xs) := by
  rw [Reach, Reach, Reach, total_append]
  constructor
  · rintro ⟨hne, hsum⟩
    by_cases hys : ys = []
    · subst hys
      exact .inl ⟨by simpa using hne, by simpa [total] using hsum⟩
    · exact .inr ⟨hys, by omega⟩
  · rintro (⟨hxs, hsum⟩ | ⟨hys, hsum⟩)
    · exact ⟨by simp [hxs], by omega⟩
    · exact ⟨by simp [hys], by omega⟩

/-- A one-shot: its counter, and whether it has expired. -/
structure Countdown where
  counter : Int
  fired : Bool

namespace Countdown

variable (c d : Countdown) (xs ys : List UInt32)

/-- The ticks make it expire. -/
def expires (ticks : List UInt32) : Bool := !c.fired && decide (Reach ticks c.counter)

/-- What ticks make of it. As it expires it goes on from the top, and from then on it never wraps. -/
def after (ticks : List UInt32) : Countdown where
  counter := c.counter - total ticks + if c.expires ticks then 0xFFFF else 0
  fired := c.fired || c.expires ticks

/-- It has expired, or the time takes its counter to no lower than the lowest word of 32 bits. -/
def Fits (time : Nat) : Prop := c.fired = true ∨ -0x80000000 ≤ c.counter - time

theorem expires_single (cycles : UInt32) : c.expires [cycles] = (!c.fired && decide (c.counter ≤ cycles.toNat)) := by
  simp [expires, Reach, total_single]

variable {c xs ys}

theorem after_of_expires (h : c.expires xs = true) : c.after xs = ⟨c.counter - total xs + 0xFFFF, true⟩ := by
  simp [after, h]

theorem after_of_not_expires (h : c.expires xs = false) : c.after xs = ⟨c.counter - total xs, c.fired⟩ := by
  simp [after, h]

variable (c xs ys)

theorem after_nil : c.after [] = c := by
  have hexpires : c.expires [] = false := by simp [expires, Reach]
  rw [after_of_not_expires hexpires]
  exact congrArg (mk · c.fired) (Int.sub_zero _)

theorem expires_append : c.expires (xs ++ ys) = (c.expires xs || (c.after xs).expires ys) := by
  cases hxs : c.expires xs with
  | true =>
    have hreach : Reach xs c.counter := by simp_all [expires]
    simp_all [expires, reach_append]
  | false =>
    rw [after_of_not_expires hxs, expires, expires]
    by_cases hreach : Reach xs c.counter
    · simp_all [expires]
    · simp [reach_append, hreach]

theorem after_append : (c.after xs).after ys = c.after (xs ++ ys) := by
  have hexpires := c.expires_append xs ys
  have hsum : (total (xs ++ ys) : Int) = total xs + total ys := by rw [total_append, Int.natCast_add]
  cases hxs : c.expires xs with
  | true =>
    -- it has expired and does not do so again
    have hys : (c.after xs).expires ys = false := by rw [after_of_expires hxs]; rfl
    rw [hxs, Bool.true_or] at hexpires
    rw [after_of_not_expires hys, after_of_expires hxs, after_of_expires hexpires, hsum]
    exact congrArg (mk · true) (by dsimp only; omega)
  | false =>
    rw [hxs, Bool.false_or] at hexpires
    cases hys : (c.after xs).expires ys with
    | true =>
      rw [after_of_expires hys, after_of_expires (hexpires.trans hys), after_of_not_expires hxs, hsum]
      exact congrArg (mk · true) (by dsimp only; omega)
    | false =>
      rw [after_of_not_expires hys, after_of_not_expires (hexpires.trans hys), after_of_not_expires hxs, hsum]
      exact congrArg (mk · c.fired) (by dsimp only; omega)

/-- Each of the ticks fits in its turn. -/
def Takes (c : Countdown) : List UInt32 → Prop
  | [] => True
  | x :: xs => c.Fits x.toNat ∧ (c.after [x]).Takes xs

theorem takes_append : c.Takes (xs ++ ys) ↔ c.Takes xs ∧ (c.after xs).Takes ys := by
  induction xs generalizing c with
  | nil => simp [Takes, after_nil]
  | cons x xs ih => rw [List.cons_append, Takes, Takes, ih, after_append, List.singleton_append, and_assoc]

variable {c xs}

/-- Ticks fit if their time does. -/
theorem Fits.takes (h : c.Fits (total xs)) : c.Takes xs := by
  induction xs generalizing c with
  | nil => trivial
  | cons x xs ih =>
    rw [total_cons] at h
    refine ⟨h.imp_right fun hroom => by omega, ih ?_⟩
    cases hx : c.expires [x] with
    | true => exact .inl (by rw [after_of_expires hx])
    | false =>
      rw [after_of_not_expires hx, total_single]
      exact h.imp_right fun hroom => by dsimp only; omega

/-- Short ticks fit as well while the counter is not below zero: the first that takes it there makes it expire. -/
theorem takes_of_short (h : c.fired = true ∨ 0 ≤ c.counter) (hshort : ∀ x ∈ xs, x.toNat < 0x80000000) :
    c.Takes xs := by
  induction xs generalizing c with
  | nil => trivial
  | cons x xs ih =>
    have hx := hshort x List.mem_cons_self
    refine ⟨h.imp_right fun hroom => by omega, ih ?_ fun y hy => hshort y (List.mem_cons_of_mem _ hy)⟩
    cases hexpires : c.expires [x] with
    | true => exact .inl (by rw [after_of_expires hexpires])
    | false =>
      rw [after_of_not_expires hexpires, total_single]
      cases hc : c.fired with
      | true => exact .inl rfl
      | false =>
        have hmore : ¬c.counter ≤ x.toNat := by simpa [expires_single, hc] using hexpires
        exact .inr (by dsimp only; omega)

variable (c xs)

/-- Before it has expired the counters are the same, and from then on they agree but for multiples of a range. -/
structure Shows (range : Int) : Prop where
  fired : c.fired = d.fired
  counter : d.fired = false → c.counter = d.counter
  low : c.counter % range = d.counter % range

theorem Shows.refl (range : Int) : c.Shows c range := ⟨rfl, fun _ => rfl, rfl⟩

end Countdown

def Timer1.countdown (t : Timer1) : Countdown := ⟨t.counter.toInt, t.fired⟩

def Timer2.countdown (t : Timer2) : Countdown := ⟨t.counter.toInt, t.fired⟩

/-- What is left of a counter is exact before the countdown has expired, and later but for multiples of the range. -/
theorem Countdown.Shows.left {counter : Int32} {fired : Bool} {c : Countdown} {range : Int}
    (h : Shows ⟨counter.toInt, fired⟩ c range) (hrange : range ∣ 0x100000000) {cycles : UInt32}
    (hfits : c.Fits cycles.toNat) :
    (c.fired = false → (counter - cycles.toInt32).toInt = c.counter - cycles.toNat) ∧
      (counter - cycles.toInt32).toInt % range = (c.counter - cycles.toNat) % range := by
  constructor
  · intro hc
    have hcounter : counter.toInt = c.counter := h.counter hc
    have hroom := hfits.resolve_left (Bool.eq_false_iff.1 hc)
    rw [← hcounter] at hroom ⊢
    exact toInt_elapse_exact hroom
  · have hwraps (x : Int) : x.bmod 0x100000000 % range = x % range := by
      rw [← Int.emod_emod_of_dvd _ hrange]
      exact (congrArg (· % range) Int.bmod_emod).trans (Int.emod_emod_of_dvd _ hrange)
    have hlow : counter.toInt % range = c.counter % range := h.low
    rw [toInt_elapse, hwraps, Int.sub_emod, hlow, ← Int.sub_emod]

/-- A timer shows what a tick makes of its countdown if it goes on from the top as it expires, and keeps what is left of
its counter otherwise, later only but for multiples of the range. -/
theorem Countdown.Shows.tick {counter : Int32} {counter' left range : Int} {fired fired' : Bool} {c : Countdown}
    (h : Shows ⟨counter.toInt, fired⟩ c range) (hrange : range ∣ 0x100000000) {cycles : UInt32}
    (hfits : c.Fits cycles.toNat) (hleft : (counter - cycles.toInt32).toInt = left)
    (hfired : fired' = (fired || decide (left ≤ 0)))
    (hcounts : fired = false → counter' = if left ≤ 0 then left + 0xFFFF else left)
    (hkeeps : fired = true → counter' % range = left % range) :
    Shows ⟨counter', fired'⟩ (c.after [cycles]) range := by
  obtain ⟨hexact, hlow⟩ := h.left hrange hfits
  rw [hleft] at hexact hlow
  obtain rfl : fired = c.fired := h.fired
  cases hc : c.fired with
  | true =>
    have hexpires : c.expires [cycles] = false := by simp [expires, hc]
    rw [after_of_not_expires hexpires, total_single, hfired, hc]
    exact ⟨rfl, fun hnot => Bool.noConfusion hnot, (hkeeps hc).trans hlow⟩
  | false =>
    have hcounter := hcounts hc
    have hexact := hexact hc
    by_cases hout : c.counter ≤ cycles.toNat
    · have hexpires : c.expires [cycles] = true := by simp [c.expires_single, hc, hout]
      rw [if_pos (by omega)] at hcounter
      rw [after_of_expires hexpires, total_single, hfired, decide_eq_true (by omega), Bool.or_true, hcounter, hexact]
      exact .refl _ _
    · have hexpires : c.expires [cycles] = false := by simp [c.expires_single, hout]
      rw [if_neg (by omega)] at hcounter
      rw [after_of_not_expires hexpires, total_single, hfired, decide_eq_false (by omega), Bool.or_false, hcounter,
        hexact]
      exact .refl _ _

/-- Wrapping to sixteen bits is not seen. -/
theorem Timer1.tick_oneShot {t : Timer1} {c : Countdown} (h : t.countdown.Shows c 0x10000) {cycles : UInt32}
    (hfits : c.Fits cycles.toNat) : (t.tick false cycles.toInt32).1.countdown.Shows (c.after [cycles]) 0x10000 := by
  obtain ⟨left, hleft⟩ : ∃ left, (t.counter - cycles.toInt32).toInt = left := ⟨_, rfl⟩
  have hcounter : (t.tick false cycles.toInt32).1.counter.toInt =
      if 0 < left then left else if t.fired then left % 0x10000 else left + 0xFFFF := tick_counter hleft
  refine h.tick (by decide) hfits hleft (tick_fired hleft) (fun hcounts => ?_) (fun hexpired => ?_)
  · rw [hcounter, hcounts, if_neg Bool.false_ne_true]
    split_ifs <;> omega
  · rw [hcounter, if_pos hexpired]
    split <;> omega

/-- Timer two counts on through all the words. -/
theorem Timer2.tick_oneShot {t : Timer2} {c : Countdown} (h : t.countdown.Shows c 0x100000000) {cycles : UInt32}
    (hfits : c.Fits cycles.toNat) :
    (t.tick false cycles.toInt32).1.countdown.Shows (c.after [cycles]) 0x100000000 := by
  refine h.tick dvd_rfl hfits rfl (tick_fired rfl) (fun hcounts => ?_) (fun hexpired => ?_)
  · exact (tick_counter rfl).trans (by simp only [hcounts, and_true])
  · exact congrArg (· % 0x100000000) ((tick_counter rfl).trans (if_neg (by simp [hexpired])))

/-! ### Runs -/

variable {σ : Type}

/-- The tick that an operation is, if it is one. -/
def Operation.ticks : Operation σ → List UInt32
  | .tick cycles => [cycles]
  | .read .. | .write .. | .signal _ | .reset => []

def ticks (os : List (Operation σ)) : List UInt32 := os.flatMap Operation.ticks

/-- The operation neither loads timer one nor makes it run freely. -/
def Operation.LeavesTimer1 : Operation σ → Prop
  | .write register v _ => register.toNat % 16 ≠ 0x5 ∧ (register.toNat % 16 = 0xB → v &&& freeRunBit = 0)
  | .read .. | .signal _ | .tick _ => True
  | .reset => False

/-- The operation does not load timer two. -/
def Operation.LeavesTimer2 : Operation σ → Prop
  | .write register .. => register.toNat % 16 ≠ 0x9
  | .read .. | .signal _ | .tick _ => True
  | .reset => False

variable [Wiring σ]

/-- The ticks that timer two counts. -/
def counted (via : Via) : List (Operation σ) → List UInt32
  | [] => []
  | o :: os => (if via.auxiliary &&& countPulsesBit = 0 then o.ticks else []) ++ (via.perform o).counted os

/-- They are ticks that are made. -/
theorem tick_mem_of_mem_counted {via : Via} {os : List (Operation σ)} {cycles : UInt32} (h : cycles ∈ via.counted os) :
    .tick cycles ∈ os := by
  induction os generalizing via with
  | nil => simp [counted] at h
  | cons o os ih =>
    obtain hfirst | hrest := List.mem_append.1 h
    · split at hfirst
      next =>
        cases o with
        | tick => exact List.mem_singleton.1 hfirst ▸ List.mem_cons_self
        | read | write | signal | reset => simp [Operation.ticks] at hfirst
      next => simp at hfirst
    · exact List.mem_cons_of_mem _ (ih hrest)

theorem write_countdowns (via : Via) (register v : UInt8) (wires : σ) :
    (register.toNat % 16 ≠ 0x5 → (via.write register v wires).1.timer1.countdown = via.timer1.countdown) ∧
      (register.toNat % 16 ≠ 0x9 → (via.write register v wires).1.timer2.countdown = via.timer2.countdown) := by
  obtain ⟨htimer1, htimer2⟩ := via.write_counters register v wires
  constructor
  · intro h
    rw [Timer1.countdown, (htimer1 h).1, (htimer1 h).2, Timer1.countdown]
  · intro h
    rw [Timer2.countdown, (htimer2 h).1, (htimer2 h).2, Timer2.countdown]

/-- A write to the auxiliary register stores the byte, and no other write changes it. -/
theorem write_auxiliary (via : Via) (register v : UInt8) (wires : σ) :
    (via.write register v wires).1.auxiliary = if register.toNat % 16 = 0xB then v else via.auxiliary := by
  split
  next hregister => simp only [write, hregister]
  next hregister => exact (via.write_spared register v wires).auxiliary hregister

/-- Timer one is a one-shot that shows what a countdown does. -/
structure CountsDown (via : Via) (c : Countdown) : Prop where
  mode : via.auxiliary &&& freeRunBit = 0
  shows : via.timer1.countdown.Shows c 0x10000

namespace CountsDown

variable {via via' : Via} {c : Countdown}

theorem start (hmode : via.auxiliary &&& freeRunBit = 0) : CountsDown via via.timer1.countdown := ⟨hmode, .refl _ _⟩

theorem of_same (h : CountsDown via c) (htimer : via'.timer1.countdown = via.timer1.countdown)
    (hauxiliary : via'.auxiliary = via.auxiliary) : CountsDown via' c :=
  ⟨hauxiliary ▸ h.mode, htimer ▸ h.shows⟩

theorem tick_timer1 (h : CountsDown via c) (cycles : UInt32) :
    (via.tick cycles).2.timer1 = (via.timer1.tick false cycles.toInt32).1 := by
  change (via.timer1.tick (via.auxiliary &&& freeRunBit != 0) cycles.toInt32).1 = _
  rw [bne_eq_false_iff_eq.2 h.mode]

/-- It expires as `fired` is set. -/
theorem occurs (h : CountsDown via c) (cycles : UInt32) :
    Source.timer1.occurs via cycles = (!via.timer1.fired && (via.tick cycles).2.timer1.fired) := by
  rw [h.tick_timer1, Timer1.tick_fired rfl]
  change (via.timer1.tick (via.auxiliary &&& freeRunBit != 0) cycles.toInt32).2 = _
  rw [bne_eq_false_iff_eq.2 h.mode, Timer1.tick_expired rfl]
  cases via.timer1.fired <;> simp

theorem step [Signalling σ] (h : CountsDown via c) {o : Operation σ} (ho : o.LeavesTimer1)
    (hfits : c.Takes o.ticks) : CountsDown (via.perform o) (c.after o.ticks) := by
  cases o with
  | read register wires =>
    have hsame := via.read_timing register wires
    rw [Operation.ticks, c.after_nil]
    exact h.of_same (congrArg Timer1.countdown hsame.timer1) hsame.auxiliary
  | write register v wires =>
    rw [Operation.ticks, c.after_nil]
    have htimer := (via.write_countdowns register v wires).1 ho.1
    refine ⟨?_, htimer ▸ h.shows⟩
    change (via.write register v wires).1.auxiliary &&& freeRunBit = 0
    rw [write_auxiliary]
    split
    next hregister => exact ho.2 hregister
    next => exact h.mode
  | signal s =>
    have hsame := via.signal_timing s
    rw [Operation.ticks, c.after_nil]
    exact h.of_same (congrArg Timer1.countdown hsame.timer1) hsame.auxiliary
  | tick cycles =>
    refine ⟨h.mode, ?_⟩
    change (via.tick cycles).2.timer1.countdown.Shows _ _
    rw [h.tick_timer1]
    exact Timer1.tick_oneShot h.shows hfits.1
  | reset => exact ho.elim

theorem run [Signalling σ] (h : CountsDown via c) {os : List (Operation σ)} (hos : ∀ o ∈ os, o.LeavesTimer1)
    (hfits : c.Takes (ticks os)) : CountsDown (via.performAll os) (c.after (ticks os)) := by
  induction os generalizing via c with
  | nil =>
    rw [ticks, List.flatMap_nil, c.after_nil]
    exact h
  | cons o os ih =>
    rw [ticks, List.flatMap_cons] at hfits ⊢
    rw [← c.after_append]
    obtain ⟨hfirst, hrest⟩ := (c.takes_append _ _).1 hfits
    exact ih (h.step (hos o List.mem_cons_self) hfirst) (fun p hp => hos p (List.mem_cons_of_mem _ hp)) hrest

end CountsDown

/-- Timer two, while it counts no pulses. -/
theorem tick_timer2 (via : Via) (hcounts : via.auxiliary &&& countPulsesBit = 0) (cycles : UInt32) :
    (via.tick cycles).2.timer2 = (via.timer2.tick false cycles.toInt32).1 := by
  change (via.timer2.tick (via.auxiliary &&& countPulsesBit != 0) cycles.toInt32).1 = _
  rw [bne_eq_false_iff_eq.2 hcounts]

theorem tick_timer2_holding (via : Via) (hpulses : via.auxiliary &&& countPulsesBit ≠ 0) (cycles : UInt32) :
    (via.tick cycles).2.timer2 = via.timer2 := by
  change (via.timer2.tick (via.auxiliary &&& countPulsesBit != 0) cycles.toInt32).1 = _
  rw [bne_iff_ne.2 hpulses]
  rfl

/-- Timer two after an operation. -/
theorem timer2_step [Signalling σ] {via : Via} {c : Countdown} (h : via.timer2.countdown.Shows c 0x100000000)
    {o : Operation σ} (ho : o.LeavesTimer2)
    (hfits : c.Takes (if via.auxiliary &&& countPulsesBit = 0 then o.ticks else [])) :
    (via.perform o).timer2.countdown.Shows
      (c.after (if via.auxiliary &&& countPulsesBit = 0 then o.ticks else [])) 0x100000000 := by
  cases o with
  | tick cycles =>
    change (via.tick cycles).2.timer2.countdown.Shows _ _
    split at hfits
    next hcounts =>
      rw [if_pos hcounts, tick_timer2 via hcounts]
      exact Timer2.tick_oneShot h hfits.1
    next hpulses =>
      rw [if_neg hpulses, tick_timer2_holding via hpulses, c.after_nil]
      exact h
  | read register wires =>
    rw [Operation.ticks, ite_self, c.after_nil]
    exact (congrArg Timer2.countdown (via.read_timing register wires).timer2) ▸ h
  | write register v wires =>
    rw [Operation.ticks, ite_self, c.after_nil]
    exact ((via.write_countdowns register v wires).2 ho) ▸ h
  | signal s =>
    rw [Operation.ticks, ite_self, c.after_nil]
    exact (congrArg Timer2.countdown (via.signal_timing s).timer2) ▸ h
  | reset => exact ho.elim

theorem timer2_run [Signalling σ] {via : Via} {c : Countdown} (h : via.timer2.countdown.Shows c 0x100000000)
    {os : List (Operation σ)} (hos : ∀ o ∈ os, o.LeavesTimer2) (hfits : c.Takes (via.counted os)) :
    (via.performAll os).timer2.countdown.Shows (c.after (via.counted os)) 0x100000000 := by
  induction os generalizing via c with
  | nil =>
    rw [counted, c.after_nil]
    exact h
  | cons o os ih =>
    rw [counted] at hfits ⊢
    rw [← c.after_append]
    obtain ⟨hfirst, hrest⟩ := (c.takes_append _ _).1 hfits
    exact ih (timer2_step h (hos o List.mem_cons_self) hfirst) (fun p hp => hos p (List.mem_cons_of_mem _ hp)) hrest

/-! ### Expiring -/

end Vic20.Via
