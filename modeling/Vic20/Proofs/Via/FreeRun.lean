import Mathlib.Tactic.Ring
import Vic20.Proofs.Via.Counters
import Vic20.Proofs.Via.Operations

/-! Timer one as it runs freely. The counter stays between one and the period, which is two cycles more than the
latch: a tick takes its cycles off, and when it expires it gains a period. So what the counter has lost since it was
loaded is the time that has passed, but for whole periods, and the flag has been raised once for each of those. -/

namespace Vic20.Via

/-- A tick that runs the counter out gains a period. -/
theorem Timer1.tick_freeRun (t : Timer1) (cycles : UInt32) {left : Int}
    (hleft : (t.counter - cycles.toInt32).toInt = left) :
    (t.tick true cycles.toInt32).1.latch = t.latch ∧ (t.tick true cycles.toInt32).2 = decide (left ≤ 0) ∧
      (t.tick true cycles.toInt32).1.counter.toInt = left + (decide (left ≤ 0)).toNat * (t.latch.toNat + 2) := by
  have hexpired : (t.tick true cycles.toInt32).2 = (decide (left ≤ 0) && (true || !t.fired)) := tick_expired hleft
  have hcounter : (t.tick true cycles.toInt32).1.counter.toInt =
      if 0 < left then left else left + (t.latch.toNat + 2) := tick_counter hleft
  rw [Bool.true_or, Bool.and_true] at hexpired
  refine ⟨tick_latch, hexpired, ?_⟩
  rw [hcounter]
  by_cases hout : left ≤ 0
  · simp [hout, hout.not_gt]
  · simp [hout, not_le.1 hout]

variable {σ : Type} [Wiring σ]

/-- An operation that leaves the timer to itself and has time for one period at the most. -/
def Operation.FreeRuns (latch : Nat) : Operation σ → Prop
  | .read .. | .signal _ => True
  | .write register _ _ =>
    (register.toNat % 16 < 4 ∨ 7 < register.toNat % 16) ∧ register.toNat % 16 ≠ 0xB
  | .tick cycles => cycles.toNat ≤ latch + 2
  | .reset => False

/-- Timer one runs freely and is within its period. -/
structure FreeRunning (latch : Nat) (via : Via) : Prop where
  mode : via.auxiliary &&& freeRunBit ≠ 0
  reload : via.timer1.latch.toNat = latch
  least : 1 ≤ via.timer1.counter.toInt
  most : via.timer1.counter.toInt ≤ latch + 2

namespace FreeRunning

variable {latch : Nat} {via via' : Via}

theorem of_same (h : FreeRunning latch via) (htimer : via'.timer1 = via.timer1)
    (hauxiliary : via'.auxiliary = via.auxiliary) : FreeRunning latch via' where
  mode := hauxiliary ▸ h.mode
  reload := htimer ▸ h.reload
  least := htimer ▸ h.least
  most := htimer ▸ h.most

/-- What an operation does to the timer. -/
structure Step (latch : Nat) (via : Via) (o : Operation σ) : Prop where
  running : FreeRunning latch (via.perform o)
  counter : (via.perform o).timer1.counter.toInt =
    via.timer1.counter.toInt - o.cycles + (via.raises .timer1 o).toNat * (latch + 2)

/-- An operation that takes no time and leaves the timer alone. -/
theorem idle (h : FreeRunning latch via) {o : Operation σ} (htimer : (via.perform o).timer1 = via.timer1)
    (hauxiliary : (via.perform o).auxiliary = via.auxiliary) (hcycles : o.cycles = 0)
    (hraises : via.raises .timer1 o = false) : Step latch via o where
  running := h.of_same htimer hauxiliary
  counter := by simp [htimer, hcycles, hraises]

theorem tick (h : FreeRunning latch via) {cycles : UInt32} (hcycles : cycles.toNat ≤ latch + 2) :
    Step latch via (.tick cycles : Operation σ) := by
  have hleast := h.least
  have hmost := h.most
  have hmode : (via.auxiliary &&& freeRunBit != 0) = true := bne_iff_ne.2 h.mode
  have hword := via.timer1.latch.toNat_lt
  have hreload := h.reload
  have hleft : (via.timer1.counter - cycles.toInt32).toInt = via.timer1.counter.toInt - cycles.toNat :=
    toInt_elapse_exact (by omega)
  obtain ⟨hlatch, hexpired, hcounter⟩ := via.timer1.tick_freeRun cycles hleft
  have htimer : (via.tick cycles).2.timer1 = (via.timer1.tick true cycles.toInt32).1 := by
    rw [← hmode]
    rfl
  have hraises : via.raises .timer1 (.tick cycles : Operation σ) =
      decide (via.timer1.counter.toInt - cycles.toNat ≤ 0) := by
    rw [← hexpired, raises_tick, ← hmode]
    rfl
  rw [← htimer] at hlatch hcounter
  rw [hreload] at hcounter
  have hbounds : 1 ≤ (via.tick cycles).2.timer1.counter.toInt ∧
      (via.tick cycles).2.timer1.counter.toInt ≤ latch + 2 := by
    rw [hcounter]
    -- the counter passes zero once in a period, so that one reload brings it back
    by_cases hout : via.timer1.counter.toInt - cycles.toNat ≤ 0
    · simp only [hout, decide_true, Bool.toNat_true]
      omega
    · simp only [hout, decide_false, Bool.toNat_false]
      omega
  exact ⟨⟨h.mode, hlatch ▸ hreload, hbounds.1, hbounds.2⟩, hraises ▸ hcounter⟩

theorem step [Signalling σ] (h : FreeRunning latch via) {o : Operation σ} (ho : o.FreeRuns latch) :
    Step latch via o := by
  cases o with
  | read register wires =>
    have hsame := via.read_timing register wires
    exact h.idle hsame.timer1 hsame.auxiliary rfl rfl
  | write register v wires =>
    have hspared := via.write_spared register v wires
    exact h.idle (hspared.timer1 ho.1) (hspared.auxiliary ho.2) rfl rfl
  | signal s =>
    have hsame := via.signal_timing s
    exact h.idle hsame.timer1 hsame.auxiliary rfl rfl
  | tick cycles => exact h.tick ho
  | reset => exact ho.elim

/-- No cycle is lost or gained in a run. -/
theorem run [Signalling σ] (h : FreeRunning latch via) {os : List (Operation σ)} (hos : ∀ o ∈ os, o.FreeRuns latch) :
    FreeRunning latch (via.performAll os) ∧
      (via.performAll os).timer1.counter.toInt =
        via.timer1.counter.toInt - elapsed os + via.timesRaised .timer1 os * (latch + 2) := by
  induction os generalizing via with
  | nil => exact ⟨h, by simp [performAll, elapsed, timesRaised]⟩
  | cons o os ih =>
    obtain ⟨hrunning, hcounter⟩ := h.step (hos o List.mem_cons_self)
    obtain ⟨hlast, htotal⟩ := ih hrunning fun p hp => hos p (List.mem_cons_of_mem _ hp)
    refine ⟨hlast, ?_⟩
    change ((via.perform o).performAll os).timer1.counter.toInt = _
    rw [htotal, hcounter]
    simp only [elapsed, timesRaised, List.map_cons, List.sum_cons]
    push_cast
    ring

end FreeRunning

/-- Loaded with the latch, the timer expires every period however the time is divided into ticks, and whatever else
happens to the adapter in between. -/
theorem free_run_period [Signalling σ] (via : Via) (high : UInt8) (wires : σ) {latch : Nat}
    (hmode : via.auxiliary &&& freeRunBit ≠ 0)
    (hload : (via.write 0x5 high wires).1.timer1.counter.toInt = latch) (hlatch : 1 ≤ latch)
    (os : List (Operation σ)) (hos : ∀ o ∈ os, o.FreeRuns latch) :
    let loaded := (via.write 0x5 high wires).1
    let last := loaded.performAll os
    let periods := (elapsed os + 2) / (latch + 2)
    loaded.timesRaised .timer1 os = periods ∧
      last.timer1.counter.toInt = latch - elapsed os + periods * (latch + 2) ∧
      1 ≤ last.timer1.counter.toInt ∧ last.timer1.counter.toInt ≤ latch + 2 := by
  intro loaded last periods
  replace hload : loaded.timer1.counter.toInt = latch := hload
  have hreload : loaded.timer1.latch.toNat = latch := Int.ofNat_inj.1 ((toInt_widen _).symm.trans hload)
  have hloaded : FreeRunning latch loaded := ⟨hmode, hreload, by omega, by omega⟩
  obtain ⟨hlast, hcounter⟩ := hloaded.run hos
  rw [hload] at hcounter
  have hleast := hlast.least
  have hmost := hlast.most
  have hperiods : periods = loaded.timesRaised .timer1 os := by
    apply Nat.div_eq_of_lt_le
    · have hpassed : (loaded.timesRaised .timer1 os * (latch + 2) : Int) ≤ elapsed os + 2 := by omega
      exact_mod_cast hpassed
    · have hleft : (elapsed os + 2 : Int) < (loaded.timesRaised .timer1 os + 1) * (latch + 2) := by
        rw [add_mul]
        omega
      exact_mod_cast hleft
  rw [← hperiods] at hcounter
  exact ⟨hperiods.symm, hcounter, hleast, hmost⟩

/-- A latch of ten and ticks that end at the reload and go past it. -/
theorem free_run_period_ten :
    let via := ((new.write 0xB freeRunBit ()).1.write 0x6 10 ()).1
    let os : List (Operation Unit) :=
      [.tick 4, .read 0x4 (), .tick 6, .signal (.setCA1 true), .write 0xE 0xC0 (), .tick 12, .tick 3]
    via.auxiliary &&& freeRunBit ≠ 0 ∧ (via.write 0x5 0 ()).1.timer1.counter.toInt = (10 : ℕ) ∧ 1 ≤ 10 ∧
      (∀ o ∈ os, o.FreeRuns 10) ∧ (via.write 0x5 0 ()).1.timesRaised .timer1 os = 2 ∧
      ((via.write 0x5 0 ()).1.performAll os).timer1.counter.toInt = 9 := by
  intro via os
  have hos : ∀ o ∈ os, o.FreeRuns 10 := by
    simp [os, Operation.FreeRuns]
  have helapsed : elapsed os = 25 := rfl
  obtain ⟨hraised, hcounter, -⟩ := free_run_period via 0 () (by decide) (by decide) (by decide) os hos
  rw [helapsed] at hraised hcounter
  exact ⟨by decide, by decide, by decide, hos, hraised, hcounter⟩

end Vic20.Via
