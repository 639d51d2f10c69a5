import Vic20.Proofs.Via.Counters
import Vic20.Proofs.Via.Operations

/-! How far the counters of the timers can go in a time. An operation other than a tick leaves a counter where it is or
loads it with a word. A tick takes its cycles off, and what a timer gains as it runs out takes its counter no further
than to the top. -/

namespace Vic20.Via

variable {σ : Type} [Wiring σ]

/-! ### What an operation does to a counter -/

/-- The registers that load the counters are the only ones to set them or whether the timers have expired. -/
theorem write_counters (via : Via) (register v : UInt8) (wires : σ) :
    (register.toNat % 16 ≠ 0x5 →
      (via.write register v wires).1.timer1.counter = via.timer1.counter ∧
        (via.write register v wires).1.timer1.fired = via.timer1.fired) ∧
    (register.toNat % 16 ≠ 0x9 →
      (via.write register v wires).1.timer2.counter = via.timer2.counter ∧
        (via.write register v wires).1.timer2.fired = via.timer2.fired) := by
  have hperipheral := via.writePeripheral_timing v wires
  unfold write
  split
  all_goals
    constructor
    all_goals
      intro h
      first
        | exact ⟨rfl, rfl⟩
        | contradiction
        | rw [hperipheral.timer1]; exact ⟨rfl, rfl⟩
        | rw [hperipheral.timer2]; exact ⟨rfl, rfl⟩

/-- A counter after an operation that is no tick. -/
def Settles (before after : Int32) : Prop := after = before ∨ ∃ w : UInt16, after = widen w

theorem perform_settles [Signalling σ] (via : Via) (o : Operation σ) :
    (∃ cycles, o = .tick cycles) ∨
      o.cycles = 0 ∧ Settles via.timer1.counter (via.perform o).timer1.counter ∧
        Settles via.timer2.counter (via.perform o).timer2.counter := by
  cases o with
  | tick cycles => exact .inl ⟨cycles, rfl⟩
  | read register wires =>
    have hsame := via.read_timing register wires
    exact .inr ⟨rfl, .inl (congrArg Timer1.counter hsame.timer1), .inl (congrArg Timer2.counter hsame.timer2)⟩
  | write register v wires =>
    obtain ⟨htimer1, htimer2⟩ := via.write_counters register v wires
    refine .inr ⟨rfl, ?_, ?_⟩
    · by_cases hload : register.toNat % 16 = 0x5
      · refine .inr ⟨(via.timer1.setLatchHigh v).latch, ?_⟩
        simp only [perform, write, hload]
        rfl
      · exact .inl (htimer1 hload).1
    · by_cases hload : register.toNat % 16 = 0x9
      · refine .inr ⟨word via.timer2.latchLow v, ?_⟩
        simp only [perform, write, hload]
        rfl
      · exact .inl (htimer2 hload).1
  | signal s =>
    have hsame := via.signal_timing s
    exact .inr ⟨rfl, .inl (congrArg Timer1.counter hsame.timer1), .inl (congrArg Timer2.counter hsame.timer2)⟩
  | reset => exact .inr ⟨rfl, .inr ⟨0, rfl⟩, .inr ⟨0, rfl⟩⟩

/-! ### Ranges -/

/-- From so far below zero up to the top. -/
def Between (time : Nat) (top : Int) (counter : Int32) : Prop := -time ≤ counter.toInt ∧ counter.toInt ≤ top

theorem Between.settles {time : Nat} {top : Int} {before after : Int32} (h : Between time top before)
    (htop : 0xFFFF ≤ top) (hsettles : Settles before after) : Between time top after := by
  obtain rfl | ⟨w, rfl⟩ := hsettles
  · exact h
  · have hword := w.toNat_lt
    rw [Between, toInt_widen]
    omega

theorem Between.timer1 {time : Nat} {t : Timer1} (h : Between time 0x10001 t.counter) {cycles : UInt32}
    (htime : time + cycles.toNat ≤ 0x80000000) (freeRun : Bool) :
    Between (time + cycles.toNat) 0x10001 (t.tick freeRun cycles.toInt32).1.counter := by
  have hlatch := t.latch.toNat_lt
  obtain ⟨hleast, hmost⟩ := h
  have hleft : (t.counter - cycles.toInt32).toInt = t.counter.toInt - cycles.toNat := toInt_elapse_exact (by omega)
  rw [Between, Timer1.tick_counter hleft]
  push_cast
  split_ifs <;> omega

theorem Between.timer2 {time : Nat} {t : Timer2} (h : Between time 0xFFFF t.counter) {cycles : UInt32}
    (htime : time + cycles.toNat ≤ 0x80000000) (countPulses : Bool) :
    Between (time + cycles.toNat) 0xFFFF (t.tick countPulses cycles.toInt32).1.counter := by
  obtain ⟨hleast, hmost⟩ := h
  cases countPulses with
  | true => exact ⟨(by omega : -((time + cycles.toNat : Nat) : Int) ≤ t.counter.toInt), hmost⟩
  | false =>
    have hleft : (t.counter - cycles.toInt32).toInt = t.counter.toInt - cycles.toNat := toInt_elapse_exact (by omega)
    rw [Between, Timer2.tick_counter hleft]
    push_cast
    split_ifs <;> omega

/-- Where the counters can be after a time. -/
structure Within (time : Nat) (via : Via) : Prop where
  timer1 : Between time 0x10001 via.timer1.counter
  timer2 : Between time 0xFFFF via.timer2.counter

namespace Within

variable {time : Nat} {via : Via}

theorem perform [Signalling σ] (h : Within time via) {o : Operation σ} (htime : time + o.cycles ≤ 0x80000000) :
    Within (time + o.cycles) (via.perform o) := by
  obtain ⟨cycles, rfl⟩ | ⟨hcycles, htimer1, htimer2⟩ := via.perform_settles o
  · exact ⟨h.timer1.timer1 htime _, h.timer2.timer2 htime _⟩
  · rw [hcycles, Nat.add_zero]
    exact ⟨h.timer1.settles (by decide) htimer1, h.timer2.settles le_rfl htimer2⟩

theorem performAll [Signalling σ] (h : Within time via) {os : List (Operation σ)}
    (htime : time + elapsed os ≤ 0x80000000) : Within (time + elapsed os) (via.performAll os) := by
  induction os generalizing time via with
  | nil => exact h
  | cons o os ih =>
    rw [elapsed_cons, ← Nat.add_assoc] at htime ⊢
    exact ih (h.perform (by omega)) htime

end Within

/-- As long as a counter can count, nothing takes it below the time that has passed. -/
theorem within_elapsed [Signalling σ] {os : List (Operation σ)} (hos : elapsed os ≤ 0x80000000) :
    Within (elapsed os) (new.performAll os) := by
  have hnew : Within 0 new := ⟨⟨by decide, by decide⟩, by decide, by decide⟩
  have htime : 0 + elapsed os ≤ 0x80000000 := by rwa [Nat.zero_add]
  have hlast := hnew.performAll htime
  rwa [Nat.zero_add] at hlast

end Vic20.Via
