import Mathlib.Tactic.Ring
import Vic20.Proofs.Via.Batches
import Vic20.Proofs.Via.FreeRun

/-! How far the counters of the timers go. Nothing takes them above the top, but two things take them as low as the
lowest word of 32 bits and round to the highest: timer one runs freely with a period shorter than the ticks, of which a
tick regains only one, and timer two is not loaded again after it has expired. As long as no tick is longer than the
period timer one stays above zero, and timer two is where its countdown is, but for the range of the words. -/

namespace Vic20.Via

variable {σ : Type} [Wiring σ]

/-! ### Keeping pace -/

/-- What timer one gains when it runs out. -/
def Timer1.period (t : Timer1) (freeRun : Bool) : Nat := if freeRun then t.latch.toNat + 2 else 0xFFFF

theorem Between.keepsPace {t : Timer1} (h : Between 0 0x10001 t.counter) {freeRun : Bool} {cycles : UInt32}
    (hpace : cycles.toNat ≤ t.period freeRun) : Between 0 0x10001 (t.tick freeRun cycles.toInt32).1.counter := by
  have hlatch := t.latch.toNat_lt
  obtain ⟨hleast, hmost⟩ := h
  have hperiod : cycles.toNat ≤ if freeRun then t.latch.toNat + 2 else 0xFFFF := hpace
  have hleft : (t.counter - cycles.toInt32).toInt = t.counter.toInt - cycles.toNat :=
    toInt_elapse_exact (by split at hperiod <;> omega)
  rw [Between, Timer1.tick_counter hleft]
  split_ifs at hperiod ⊢ <;> omega

/-- No operation takes longer than what timer one gains when it runs out. -/
def KeepsPace (via : Via) : List (Operation σ) → Prop
  | [] => True
  | o :: os => o.cycles ≤ via.timer1.period (via.auxiliary &&& freeRunBit != 0) ∧ (via.perform o).KeepsPace os

instance KeepsPace.decidable (via : Via) : (os : List (Operation σ)) → Decidable (via.KeepsPace os)
  | [] => .isTrue trivial
  | o :: os =>
    have := KeepsPace.decidable (via.perform o) os
    inferInstanceAs (Decidable (_ ∧ _))

theorem KeepsPace.between [Signalling σ] {via : Via} {os : List (Operation σ)} (hos : via.KeepsPace os)
    (h : Between 0 0x10001 via.timer1.counter) : Between 0 0x10001 (via.performAll os).timer1.counter := by
  induction os generalizing via with
  | nil => exact h
  | cons o os ih =>
    refine ih hos.2 ?_
    obtain ⟨cycles, rfl⟩ | ⟨-, htimer1, -⟩ := via.perform_settles o
    · exact h.keepsPace hos.1
    · exact h.settles (by decide) htimer1

/-! ### Timer two after it was loaded -/

/-- Timer two counts on through all the words. -/
theorem timer2_counter [Signalling σ] {via : Via} {count : Nat} (h : via.timer2.countdown = ⟨count, false⟩)
    {os : List (Operation σ)} (hos : ∀ o ∈ os, o.LeavesTimer2) (hshort : ∀ o ∈ os, o.cycles < 0x80000000) :
    (via.performAll os).timer2.counter.toInt =
      (count - total (via.counted os) + if Reach (via.counted os) count then 0xFFFF else 0 : Int).bmod 0x100000000 := by
  have hstart : via.timer2.countdown.Shows ⟨count, false⟩ 0x100000000 := h ▸ .refl _ _
  have hticks : ∀ cycles ∈ via.counted os, cycles.toNat < 0x80000000 :=
    fun cycles hmem => hshort (.tick cycles) (tick_mem_of_mem_counted hmem)
  have hlow := (timer2_run hstart hos (Countdown.takes_of_short (.inr (Int.natCast_nonneg _)) hticks)).low
  have hleast := (via.performAll os).timer2.counter.le_toInt
  have hmost := (via.performAll os).timer2.counter.toInt_lt
  simp only [Countdown.after, Countdown.expires, Bool.not_false, Bool.true_and, decide_eq_true_eq] at hlow
  have hcounter : (via.performAll os).timer2.countdown.counter = (via.performAll os).timer2.counter.toInt := rfl
  rw [hcounter] at hlow
  simp only [Int.bmod_def]
  split_ifs at hlow ⊢ <;> omega

/-- Timer two goes below the lowest word that programs see only when it has counted a whole range and more after it has
expired. -/
theorem timer2_lowest_iff [Signalling σ] {via : Via} {count : Nat} (h : via.timer2.countdown = ⟨count, false⟩)
    {os : List (Operation σ)} (hos : ∀ o ∈ os, o.LeavesTimer2) (hshort : ∀ o ∈ os, o.cycles < 0x80000000)
    (htime : total (via.counted os) ≤ 0x80000000) :
    -0x10000 ≤ (via.performAll os).timer2.counter.toInt ↔ total (via.counted os) ≤ count + 0x1FFFF := by
  have hcount : (count : Int) < 0x80000000 := (congrArg Countdown.counter h).symm.trans_lt via.timer2.counter.toInt_lt
  rw [timer2_counter h hos hshort]
  by_cases hreach : Reach (via.counted os) count
  · have hpassed := hreach.2
    rw [if_pos hreach, Int.bmod_eq_of_le_mul_two (by omega) (by omega)]
    omega
  · -- it counts down still, or nothing has been counted
    have hleft : total (via.counted os) ≤ count := by
      by_contra hmore
      refine hreach ⟨?_, by omega⟩
      rintro hnone
      rw [hnone] at hmore
      exact hmore (Nat.zero_le _)
    rw [if_neg hreach, Int.bmod_eq_of_le_mul_two (by omega) (by omega)]
    omega

/-! ### Drifting -/

/-- Running freely, timer one loses what a tick is longer than the period, tick after tick. -/
theorem outrun (via : Via) (hmode : via.auxiliary &&& freeRunBit ≠ 0) (hout : via.timer1.counter.toInt ≤ 0)
    {cycles : UInt32} {latch lost : Nat} (hlatch : via.timer1.latch.toNat = latch)
    (hlong : cycles.toNat = latch + 2 + lost) (n : Nat)
    (hroom : -0x80000000 ≤ via.timer1.counter.toInt - n * lost - (latch + 2)) :
    (via.tickAll (List.replicate n cycles)).timer1.counter.toInt = via.timer1.counter.toInt - n * lost := by
  induction n generalizing via with
  | zero => simp [tickAll]
  | succ n ih =>
    have hterms : ((n + 1 : Nat) : Int) * lost = n * lost + lost := by push_cast; ring
    have hmore : (0 : Int) ≤ n * lost := mul_nonneg (Int.natCast_nonneg _) (Int.natCast_nonneg _)
    have htimer : (via.tick cycles).2.timer1 = (via.timer1.tick true cycles.toInt32).1 := by
      rw [← bne_iff_ne.2 hmode]
      rfl
    have hleft : (via.timer1.counter - cycles.toInt32).toInt = via.timer1.counter.toInt - cycles.toNat :=
      toInt_elapse_exact (by omega)
    obtain ⟨hlatch', -, hcounter⟩ := via.timer1.tick_freeRun cycles hleft
    have hruns : via.timer1.counter.toInt - cycles.toNat ≤ 0 := by omega
    rw [decide_eq_true hruns, Bool.toNat_true, Nat.cast_one, one_mul, ← htimer] at hcounter
    rw [← htimer] at hlatch'
    have hrest := ih (via.tick cycles).2 hmode (by omega) (hlatch' ▸ hlatch) (by omega)
    show ((via.tick cycles).2.tickAll (List.replicate n cycles)).timer1.counter.toInt = _
    omega

/-- Timer one runs freely with the shortest period, and timer two is never loaded. -/
def drifting (n : Nat) : List (Operation Unit) :=
  .write 0xB freeRunBit () :: .write 0x5 0 () :: List.replicate n (.tick 22)

theorem cycles_drifting (n : Nat) : ∀ o ∈ drifting n, o.cycles ≤ 22 := by
  intro o ho
  simp only [drifting, List.mem_cons, List.mem_replicate] at ho
  rcases ho with rfl | rfl | ⟨-, rfl⟩ <;> simp [Operation.cycles]

theorem performAll_drifting (n : Nat) :
    new.performAll (drifting n) = { new with auxiliary := freeRunBit }.tickAll (List.replicate n 22) := by
  rw [tickAll_eq (σ := Unit), List.map_replicate]
  rfl

theorem timer1_drifting {n : Nat} (hn : n ≤ 107374182) :
    (new.performAll (drifting n)).timer1.counter.toInt = -20 * n := by
  let via : Via := { new with auxiliary := freeRunBit }
  have hstart : via.timer1.counter.toInt = 0 := rfl
  have hlatch : via.timer1.latch.toNat = 0 := rfl
  have hlong : (22 : UInt32).toNat = 0 + 2 + 20 := rfl
  rw [performAll_drifting, via.outrun (by decide) hstart.le hlatch hlong n (by omega)]
  omega

/-- From as low as that the next tick takes it past the lowest word. -/
theorem timer1_passed {n : Nat} (hn : n = 107374183) :
    (new.performAll (drifting n)).timer1.counter.toInt = 2147483634 := by
  -- the number of ticks is a variable so that nothing writes the list of them out
  obtain ⟨m, rfl⟩ : ∃ m, n = m + 1 := ⟨n - 1, by omega⟩
  have hlast : (new.performAll (drifting m)).timer1.counter.toInt = -20 * m := timer1_drifting (by omega)
  rw [performAll_drifting] at hlast ⊢
  rw [List.replicate_succ', tickAll, List.foldl_append]
  change (Timer1.tick (tickAll _ (List.replicate m 22)).timer1 _ (22 : UInt32).toInt32).1.counter.toInt = _
  have hcycles : (22 : UInt32).toNat = 22 := rfl
  rw [Timer1.tick_counter (toInt_elapse _ _), hlast, hcycles, Int.bmod_def]
  split_ifs <;> omega

theorem timer2_drifting {n : Nat} (hn : n ≠ 0) :
    (new.performAll (drifting n)).timer2.counter.toInt = (0xFFFF - 22 * n : Int).bmod 0x100000000 := by
  let via : Via := { new with auxiliary := freeRunBit }
  let os : List (Operation Unit) := (List.replicate n 22).map .tick
  have hstart : via.timer2.countdown = ⟨(0 : Nat), false⟩ := rfl
  have hleaves : ∀ o ∈ os, o.LeavesTimer2 := by simp [os, Operation.LeavesTimer2]
  have hshort : ∀ o ∈ os, o.cycles < 0x80000000 := by simp [os, Operation.cycles]
  have hcounted : via.counted os = List.replicate n 22 := (via.counted_ticks _).trans (if_pos (by decide))
  have htotal : total (List.replicate n 22) = n * 22 := by simp [total]
  have hreach : Reach (List.replicate n 22) (0 : Nat) := ⟨by simpa using hn, Int.natCast_nonneg _⟩
  have hlast := timer2_counter hstart hleaves hshort
  rw [hcounted, if_pos hreach, htotal, ← tickAll_eq] at hlast
  rw [performAll_drifting]
  exact hlast.trans (congrArg (Int.bmod · 0x100000000) (by omega))

/-- For as long as 32 bits can count the time the counters go no lower than it, and never above the top. Timer one stays
above zero as long as no tick is longer than what it gains when it runs out. Timer two counts on through all the words,
and before it comes round it is above the lowest word that programs see exactly as long as it is loaded again in time.
Without that both counters pass the lowest word and go on from the highest. -/
theorem counter_range [Signalling σ] (os : List (Operation σ)) :
    let via := new.performAll os
    (elapsed os ≤ 0x80000000 →
      (-(elapsed os : Int) ≤ via.timer1.counter.toInt ∧ via.timer1.counter.toInt ≤ 0x10001) ∧
        -(elapsed os : Int) ≤ via.timer2.counter.toInt ∧ via.timer2.counter.toInt ≤ 0xFFFF) ∧
      (new.KeepsPace os → 0 ≤ via.timer1.counter.toInt ∧ via.timer1.counter.toInt ≤ 0x10001) ∧
      (∀ (count : Nat) (ps : List (Operation σ)), via.timer2.countdown = ⟨count, false⟩ →
        (∀ o ∈ ps, o.LeavesTimer2) → (∀ o ∈ ps, o.cycles < 0x80000000) →
        let counter := (via.performAll ps).timer2.counter.toInt
        let time := total (via.counted ps)
        counter = (count - time + if Reach (via.counted ps) count then 0xFFFF else 0 : Int).bmod 0x100000000 ∧
          (time ≤ 0x80000000 → (-0x10000 ≤ counter ↔ time ≤ count + 0x1FFFF))) ∧
      (∀ n : Nat, (∀ o ∈ drifting n, o.cycles ≤ 22) ∧
        (n ≤ 107374182 → (new.performAll (drifting n)).timer1.counter.toInt = -20 * n) ∧
        (n ≠ 0 → (new.performAll (drifting n)).timer2.counter.toInt = (0xFFFF - 22 * n : Int).bmod 0x100000000)) ∧
      (new.performAll (drifting 107374183)).timer1.counter.toInt = 2147483634 := by
  intro via
  refine ⟨fun htime => ?_, fun hpace => hpace.between ⟨by decide, by decide⟩, fun count ps hcount hps hshort => ?_,
    fun n => ⟨cycles_drifting n, timer1_drifting, timer2_drifting⟩, timer1_passed rfl⟩
  · have hwithin : Within (elapsed os) via := within_elapsed htime
    exact ⟨hwithin.timer1, hwithin.timer2⟩
  · exact ⟨timer2_counter hcount hps hshort, timer2_lowest_iff hcount hps hshort⟩

/-- Six thousand ticks of the longest kind, a tenth of a second. -/
theorem counters_out_of_range :
    (∀ o ∈ drifting 6000, o.cycles ≤ 22) ∧ (new.performAll (drifting 6000)).timer1.counter.toInt = -120000 ∧
      (new.performAll (drifting 6000)).timer2.counter.toInt = -66465 :=
  ⟨cycles_drifting 6000, (timer1_drifting (by decide)).trans (by decide),
    (timer2_drifting (by decide)).trans (by decide)⟩

/-- The shortest latch that keeps pace with the longest ticks, and timer two just before it leaves the words. -/
theorem counter_range_kept :
    let os : List (Operation Unit) :=
      [.write 0xB freeRunBit (), .write 0x6 20 (), .write 0x5 0 (), .tick 22, .write 0x9 0 (), .tick 0]
    let armed : List (Operation Unit) := os.take 5
    let ps : List (Operation Unit) := [.tick 0x1FFFF]
    elapsed os ≤ 0x80000000 ∧ new.KeepsPace os ∧ (new.performAll armed).timer2.countdown = ⟨(0 : Nat), false⟩ ∧
      (∀ o ∈ ps, o.LeavesTimer2) ∧ (∀ o ∈ ps, o.cycles < 0x80000000) ∧
      (new.performAll os).timer2.counter.toInt ≤ 0xFFFF ∧ 0 ≤ (new.performAll os).timer1.counter.toInt ∧
      -0x10000 ≤ ((new.performAll armed).performAll ps).timer2.counter.toInt := by
  intro os armed ps
  have htime : elapsed os ≤ 0x80000000 := by decide
  have hpace : new.KeepsPace os := by decide
  have harmed : (new.performAll armed).timer2.countdown = ⟨(0 : Nat), false⟩ := rfl
  have hps : ∀ o ∈ ps, o.LeavesTimer2 := by simp [ps, Operation.LeavesTimer2]
  have hshort : ∀ o ∈ ps, o.cycles < 0x80000000 := by simp [ps, Operation.cycles]
  obtain ⟨hwithin, hkept, -⟩ := counter_range os
  obtain ⟨-, hlowest⟩ := (counter_range armed).2.2.1 0 ps harmed hps hshort
  exact ⟨htime, hpace, harmed, hps, hshort, (hwithin htime).2.2, (hkept hpace).1,
    (hlowest (by decide)).2 (by decide)⟩

end Vic20.Via
