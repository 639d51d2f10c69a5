import Mathlib.Algebra.GroupWithZero.Nat
import Vic20.Proofs.Machine.Trace

/-! The chips keep in step. Each chip has a clock, which shows for how many cycles the events have advanced it,
and so has the processor for how long it was busy. A step, whatever interrupts are entered in it, moves all of
them on by the same cycles, which it adds to those of the frame. -/

namespace Vic20

/-- The clocks of the processor and of the chips. -/
@[ext] structure Clocks where
  cpu : Nat
  via1 : Nat
  via2 : Nat
  vic : Nat
  drive : Nat
  deriving DecidableEq, Repr

namespace Clocks

def zero : Clocks := ⟨0, 0, 0, 0, 0⟩

def add (a b : Clocks) : Clocks :=
  ⟨a.cpu + b.cpu, a.via1 + b.via1, a.via2 + b.via2, a.vic + b.vic, a.drive + b.drive⟩

/-- All clocks show the same. -/
def all (n : Nat) : Clocks := ⟨n, n, n, n, n⟩

theorem zero_add (a : Clocks) : zero.add a = a := by
  ext <;> exact Nat.zero_add _

theorem add_assoc (a b c : Clocks) : (a.add b).add c = a.add (b.add c) := by
  ext <;> exact Nat.add_assoc _ _ _

theorem all_add (n k : Nat) : (all n).add (all k) = all (n + k) := rfl

end Clocks

namespace Core

/-- What an event adds to the clocks. -/
def Event.clocks : Event → Clocks
  | .instruction n | .irq n | .nmi n => { Clocks.zero with cpu := n }
  | .sample n _ _ | .settle n _ => { Clocks.zero with via1 := n }
  | .via2 n _ => { Clocks.zero with via2 := n }
  | .vic n => { Clocks.zero with vic := n }
  | .drive n => { Clocks.zero with drive := n }

def clocks : List Event → Clocks
  | [] => .zero
  | e :: es => e.clocks.add (clocks es)

theorem clocks_append (es fs : List Event) : clocks (es ++ fs) = (clocks es).add (clocks fs) := by
  induction es with
  | nil => exact (Clocks.zero_add _).symm
  | cons e es ih =>
    rw [List.cons_append, clocks, ih, clocks, Clocks.add_assoc]

variable {σ : Type} [Storage σ] {c d : Core σ}

/-- The processor's clock is its own count of cycles. -/
theorem Run.cycles {es : List Event} (h : Run c es d) : d.cpu.cycles = c.cpu.cycles + (clocks es).cpu := by
  induction h with
  | nil => rfl
  | @cons c d' d event events h _ ih =>
    have hevent : d'.cpu.cycles = c.cpu.cycles + event.clocks.cpu := by
      cases h with
      | instruction => exact Cpu.step_counts c.cpu c.board
      | irq => exact Cpu.irq_counts c.cpu c.board
      | nmi => exact Cpu.nmi_counts c.cpu c.board
      | _ => rfl
    rw [ih, hevent, clocks, Nat.add_assoc]
    rfl

omit [Storage σ] in
/-- The first adapter is advanced once more over the interrupt that it causes. -/
theorem clocks_followEvents (c : Core σ) (n : Nat) :
    clocks (c.followEvents n) = ⟨(c.follow n).1, n + (c.follow n).1, 0, 0, 0⟩ := by
  rw [follow_eq, followEvents]
  by_cases h : c.Rises n
  · rw [if_pos h, if_pos h]
    ext <;> simp [clocks, Clocks.add, Clocks.zero, Event.clocks, nmiEvents]
  · rw [if_neg h, if_neg h]
    ext <;> simp [clocks, Clocks.add, Clocks.zero, Event.clocks]

omit [Storage σ] in
theorem clocks_irqEvents (c : Core σ) :
    clocks c.irqEvents = ⟨c.takeIrq.1, c.takeIrq.1, c.takeIrq.1, 0, 0⟩ := by
  rw [takeIrq_follow, irqEvents]
  simp only [List.cons_append, clocks, clocks_append, clocks_followEvents]
  ext <;> simp [Clocks.add, Clocks.zero, Event.clocks]

omit [Storage σ] in
/-- Masked or not asked for, the interrupt takes no time of either adapter. -/
theorem clocks_irqOf (c : Core σ) :
    clocks (if c.polled.1 then c.polled.2.irqEvents else []) = ⟨c.irqOf.1, c.irqOf.1, c.irqOf.1, 0, 0⟩ := by
  unfold irqOf
  split
  · exact clocks_irqEvents c.polled.2
  · rfl

/-- A step moves all clocks on by what it takes. -/
theorem clocks_events (c : Core σ) : clocks c.events = .all c.step.1 := by
  unfold events
  simp only [List.cons_append, clocks, clocks_append, clocks_followEvents, clocks_irqOf, ← followed_eq]
  rw [step_fst]
  ext <;> simp [Clocks.add, Clocks.zero, Event.clocks, Clocks.all]
  omega

theorem step_cycles (c : Core σ) : c.step.2.cpu.cycles = c.cpu.cycles + c.step.1 := by
  rw [(step_run c).cycles, clocks_events]
  rfl

end Core

namespace Machine

variable {σ : Type} [Storage σ] {m : Machine σ}

/-- What a frame has run is what its events add to each of the clocks. -/
theorem runSteps_clocks (m : Machine σ) (fuel run : Nat) :
    ∃ n, (m.runSteps fuel run).1 = run + n ∧ Core.clocks (m.runEvents fuel run) = .all n ∧
      (m.runSteps fuel run).2.core.cpu.cycles = m.core.cpu.cycles + n := by
  induction fuel generalizing m run with
  | zero => exact ⟨0, rfl, rfl, rfl⟩
  | succ fuel ih =>
    unfold runSteps runEvents
    by_cases hrun : Video.cyclesPerFrame ≤ run
    · rw [if_pos hrun, if_pos hrun]
      exact ⟨0, rfl, rfl, rfl⟩
    · obtain ⟨n, hn, hclocks, hcycles⟩ := ih m.step.2 (run + m.step.1)
      have hstep : m.step.2.core.cpu.cycles = m.core.cpu.cycles + m.core.step.1 := by
        rw [step_cpu, Core.step_cycles]
      rw [if_neg hrun, if_neg hrun]
      refine ⟨m.step.1 + n, ?_, ?_, ?_⟩
      · rw [← Nat.add_assoc]
        exact hn
      · rw [Core.clocks_append, Core.clocks_events, hclocks]
        exact Clocks.all_add m.core.step.1 n
      · rw [← Nat.add_assoc, step_fst, ← hstep]
        exact hcycles

theorem runFrame_clocks (m : Machine σ) :
    Core.clocks (m.runEvents frameFuel 0) = .all m.runFrame.1 ∧
      m.runFrame.2.core.cpu.cycles = m.core.cpu.cycles + m.runFrame.1 := by
  obtain ⟨n, hn, hclocks, hcycles⟩ := runSteps_clocks m frameFuel 0
  have hframe : m.runFrame.1 = n := by
    rw [runFrame_fst, hn, Nat.zero_add]
  rw [hframe, runFrame_cpu]
  exact ⟨hclocks, hcycles⟩

theorem runSteps_cycle (m : Machine σ) (fuel run : Nat) : (m.runSteps fuel run).2.cycle = m.cycle := by
  induction fuel generalizing m run with
  | zero => rfl
  | succ fuel ih =>
    unfold runSteps
    split
    · rfl
    · exact (ih m.step.2 _).trans (step_cycle m)

/-- The counter wraps. -/
theorem runFrame_cycle (m : Machine σ) :
    m.runFrame.2.cycle.toNat = (m.cycle.toNat + m.runFrame.1) % UInt32.size := by
  have hcycle : m.runFrame.2.cycle = (m.runSteps frameFuel 0).2.cycle + UInt32.ofNat m.runFrame.1 := rfl
  rw [hcycle, runSteps_cycle, UInt32.toNat_add, UInt32.toNat_ofNat', Nat.add_mod_mod]

theorem runFrames_clocks (m : Machine σ) (count : Nat) :
    let r := m.runFrames runFrame count
    Core.clocks (m.framesEvents count) = .all r.1.sum ∧
      r.2.core.cpu.cycles = m.core.cpu.cycles + r.1.sum ∧
      r.2.cycle.toNat = (m.cycle.toNat + r.1.sum) % UInt32.size := by
  induction count generalizing m with
  | zero => exact ⟨rfl, rfl, (Nat.mod_eq_of_lt m.cycle.toNat_lt).symm⟩
  | succ count ih =>
    obtain ⟨hclocks, hcycles⟩ := runFrame_clocks m
    obtain ⟨hclocks', hcycles', hcycle'⟩ := ih m.runFrame.2
    rw [runFrames_succ, framesEvents_succ]
    refine ⟨?_, ?_, ?_⟩
    · rw [List.sum_cons, Core.clocks_append, hclocks, hclocks', Clocks.all_add]
    · rw [List.sum_cons, hcycles', hcycles, Nat.add_assoc]
    · rw [List.sum_cons, hcycle', runFrame_cycle, Nat.mod_add_mod, Nat.add_assoc]

/-- All chips keep in step. Every step moves the processor, both adapters and the video chip on by the cycles that
the frame counts for it, whatever interrupts are entered. So after any frames in a row each of them has been
advanced by the sum of the counts, and the counter of cycles has moved on by it. That is a word of 32 bits. -/
theorem lockstep (m : Machine σ) :
    (∀ c : Core σ, Core.Run c c.events c.step.2 ∧ Core.clocks c.events = .all c.step.1 ∧
      c.step.2.cpu.cycles = c.cpu.cycles + c.step.1) ∧
    (∀ fuel, ∀ run < Video.cyclesPerFrame,
      m.runSteps (fuel + 1) run = m.step.2.runSteps fuel (run + m.core.step.1)) ∧
    ∀ count, let r := m.runFrames runFrame count
      Core.clocks (m.framesEvents count) = .all r.1.sum ∧
      r.2.core.cpu.cycles = m.core.cpu.cycles + r.1.sum ∧
      r.2.cycle.toNat = (m.cycle.toNat + r.1.sum) % UInt32.size :=
  ⟨fun c => ⟨Core.step_run c, Core.clocks_events c, Core.step_cycles c⟩,
    fun fuel _ hrun => runSteps_succ m fuel hrun, runFrames_clocks m⟩

end Machine
end Vic20
