import Vic20.Proofs.Machine.Trace

/-! The first adapter interrupts the processor by the rises of its output. An edge detector reads the events of a
run: it knows the line as last seen, after a rise it awaits the entry into the interrupt, and after that an
output that is still asserted. There is no run that it cannot read, since to enter an interrupt leaves the
adapter alone and a tick takes no flag away. -/

namespace Vic20

namespace Core

/-- An event that is none of the first adapter and its interrupt. -/
def Event.Aside : Event → Prop
  | .nmi _ | .sample .. | .settle .. => False
  | .instruction _ | .irq _ | .via2 .. | .vic _ | .drive _ => True

/-- What an edge detector has read: the line as last seen, a rise of it, or the entry that follows. -/
inductive Phase where
  | seen (line : Bool)
  | rising
  | entering
  deriving DecidableEq, Repr

namespace Phase

def next : Phase → Event → Option Phase
  | .seen line, .sample _ last asserted =>
    if last = line then some (if asserted && !line then .rising else .seen asserted) else none
  | .seen _, .nmi _ | .seen _, .settle .. => none
  | .seen line, _ => some (.seen line)
  | .rising, .nmi _ => some .entering
  | .entering, .settle _ true => some (.seen true)
  | .rising, _ | .entering, _ => none

def read (p : Phase) : List Event → Option Phase
  | [] => some p
  | e :: es => (p.next e).bind (·.read es)

variable {p q r : Phase} {e : Event} {es fs : List Event} {line : Bool}

theorem read_append (h : p.read es = some q) : p.read (es ++ fs) = q.read fs := by
  induction es generalizing p with
  | nil =>
    cases h
    rfl
  | cons e es ih =>
    obtain ⟨p', hnext, hread⟩ := Option.bind_eq_some_iff.1 h
    change (p.next e).bind (·.read (es ++ fs)) = q.read fs
    rw [hnext]
    exact ih hread

theorem read_split (h : p.read (es ++ e :: fs) = some q) :
    ∃ a b, p.read es = some a ∧ a.next e = some b ∧ b.read fs = some q := by
  induction es generalizing p with
  | nil =>
    obtain ⟨b, hnext, hread⟩ := Option.bind_eq_some_iff.1 h
    exact ⟨p, b, rfl, hnext, hread⟩
  | cons e' es ih =>
    obtain ⟨p', hnext, hread⟩ := Option.bind_eq_some_iff.1 h
    obtain ⟨a, b, ha, hb, hq⟩ := ih hread
    refine ⟨a, b, ?_, hb, hq⟩
    change (p.next e').bind (·.read es) = some a
    rw [hnext]
    exact ha

/-- The detector passes over what is not of the first adapter. -/
theorem read_aside (h : e.Aside) : (seen line).read (e :: es) = (seen line).read es := by
  cases e with
  | nmi | sample | settle => exact h.elim
  | _ => rfl

/-- An interrupt is entered after a rise only. -/
theorem eq_rising {n : Nat} (h : p.next (.nmi n) = some q) : p = .rising ∧ q = .entering := by
  cases p with
  | rising =>
    cases h
    exact ⟨rfl, rfl⟩
  | _ => cases h

theorem next_rising (h : p.next e = some .rising) : ∃ n, e = .sample n false true := by
  cases p with
  | seen line =>
    cases e with
    | sample n last asserted =>
      simp only [next] at h
      split at h
      · next hlast =>
        subst hlast
        cases last <;> cases asserted <;> simp_all
      · cases h
    | _ => simp [next] at h
  | rising => cases e <;> simp [next] at h
  | entering =>
    cases e with
    | settle n asserted => cases asserted <;> simp [next] at h
    | _ => simp [next] at h

theorem sample_rise {n : Nat} (h : p.next (.sample n false true) = some q) : q = .rising := by
  cases p with
  | seen line =>
    simp only [next] at h
    split at h
    · next hlast =>
      subst hlast
      exact (Option.some.inj h).symm
    · cases h
  | _ => cases h

theorem last_rising (h : (seen line).read es = some .rising) : ∃ fs n, es = fs ++ [.sample n false true] := by
  rcases es.eq_nil_or_concat with rfl | ⟨fs, e, rfl⟩
  · cases h
  · rw [List.concat_eq_append] at h ⊢
    obtain ⟨a, b, -, hnext, hread⟩ := read_split h
    cases hread
    obtain ⟨n, rfl⟩ := next_rising hnext
    exact ⟨fs, n, rfl⟩

/-- After a rise the interrupt is entered. -/
theorem rising_read (h : rising.read es = some (.seen line)) : ∃ n fs, es = .nmi n :: fs := by
  cases es with
  | nil => cases h
  | cons e es =>
    obtain ⟨p, hnext, -⟩ := Option.bind_eq_some_iff.1 h
    cases e with
    | nmi n => exact ⟨n, es, rfl⟩
    | _ => cases hnext

/-- With the line seen asserted there is no rise before a sample that shows it dropped. -/
theorem asserted_rising (hp : p = .entering ∨ p = .seen true) (h : p.read es = some .rising) :
    ∃ n last, .sample n last false ∈ es := by
  induction es generalizing p with
  | nil => rcases hp with rfl | rfl <;> cases h
  | cons e es ih =>
    obtain ⟨p', hnext, hread⟩ := Option.bind_eq_some_iff.1 h
    have hlater (hp' : p' = .entering ∨ p' = .seen true) : ∃ n last, .sample n last false ∈ e :: es := by
      obtain ⟨n, last, hmem⟩ := ih hp' hread
      exact ⟨n, last, List.mem_cons_of_mem e hmem⟩
    rcases hp with rfl | rfl
    · cases e with
      | settle n asserted =>
        cases asserted with
        | false => cases hnext
        | true =>
          cases hnext
          exact hlater (.inr rfl)
      | _ => cases hnext
    · cases e with
      | sample n last asserted =>
        cases asserted with
        | false => exact ⟨n, last, List.mem_cons_self⟩
        | true =>
          simp only [next] at hnext
          split at hnext
          · cases hnext
            exact hlater (.inr rfl)
          · cases hnext
      | nmi | settle => cases hnext
      | _ =>
        cases hnext
        exact hlater (.inr rfl)

theorem settle_asserted {n : Nat} {asserted : Bool} (h : p.next (.settle n asserted) = some q) :
    asserted = true := by
  cases p with
  | entering =>
    cases asserted with
    | true => rfl
    | false => cases h
  | _ => cases h

end Phase

/-- The interrupt is entered at the rises of the line and nowhere else. Between two entries the line is seen to
drop, and over an entry it does not. -/
structure EdgeExact (es : List Event) : Prop where
  entered {before : List Event} {n : Nat} {after : List Event} (h : es = before ++ .nmi n :: after) :
    ∃ earlier k, before = earlier ++ [.sample k false true]
  rises {before : List Event} {n : Nat} {after : List Event} (h : es = before ++ .sample n false true :: after) :
    ∃ k later, after = .nmi k :: later
  drops {before : List Event} {n : Nat} {between : List Event} {k : Nat} {after : List Event}
    (h : es = before ++ .nmi n :: (between ++ .nmi k :: after)) : ∃ j last, .sample j last false ∈ between
  settled {n : Nat} {asserted : Bool} (h : .settle n asserted ∈ es) : asserted = true

theorem edgeExact_of_read {es : List Event} {line line' : Bool}
    (h : (Phase.seen line).read es = some (.seen line')) : EdgeExact es where
  entered := by
    rintro before n after rfl
    obtain ⟨a, b, ha, hnext, -⟩ := Phase.read_split h
    obtain ⟨rfl, -⟩ := Phase.eq_rising hnext
    exact Phase.last_rising ha
  rises := by
    rintro before n after rfl
    obtain ⟨a, b, -, hnext, hread⟩ := Phase.read_split h
    obtain rfl := Phase.sample_rise hnext
    exact Phase.rising_read hread
  drops := by
    rintro before n between k after rfl
    obtain ⟨a, b, -, hnext, hread⟩ := Phase.read_split h
    obtain ⟨-, rfl⟩ := Phase.eq_rising hnext
    obtain ⟨a', b', ha', hnext', -⟩ := Phase.read_split hread
    obtain ⟨rfl, -⟩ := Phase.eq_rising hnext'
    exact Phase.asserted_rising (.inl rfl) ha'
  settled := by
    intro n asserted hmem
    obtain ⟨before, after, rfl⟩ := List.append_of_mem hmem
    obtain ⟨a, b, -, hnext, -⟩ := Phase.read_split h
    exact Phase.settle_asserted hnext

/-! ### The runs that the detector reads -/

variable {σ : Type}

/-- The adapter does not let go of its output while its interrupt is entered. -/
theorem enterNmi_asserted {c : Core σ} (h : c.board.via1.interrupting = true) (n : Nat) :
    (c.enterNmi.2.tickVia1 n).1 = true := by
  have hstays : c.enterNmi.2.board.via1.interrupting = true :=
    (congrArg Via.interrupting (Board.nmi_via1 c.board c.cpu)).trans h
  exact Via.tick_interrupting hstays _

theorem Rises.settles {c : Core σ} {n : Nat} (h : c.Rises n) :
    ((c.sampled n).enterNmi.2.tickVia1 (c.sampled n).enterNmi.1).1 = true :=
  enterNmi_asserted (c := c.sampled n) h.1 _

/-- Once the output has been followed, the line is as the output is. -/
theorem follow_line (c : Core σ) (n : Nat) :
    (c.follow n).2.nmiLine = (c.follow n).2.board.via1.interrupting := by
  rw [follow_eq]
  by_cases h : c.Rises n
  · rw [if_pos h]
    exact h.1.trans h.settles.symm
  · rw [if_neg h]
    rfl

theorem read_followEvents (c : Core σ) (n : Nat) :
    (Phase.seen c.nmiLine).read (c.followEvents n) = some (.seen (c.follow n).2.nmiLine) := by
  rw [follow_eq, followEvents]
  by_cases h : c.Rises n
  · have hsettles := h.settles
    obtain ⟨hasserted, hline⟩ := h
    rw [if_pos ⟨hasserted, hline⟩, if_pos ⟨hasserted, hline⟩, hasserted, hline, nmiEvents, hsettles]
    exact congrArg (fun b => some (Phase.seen b)) hasserted.symm
  · rw [if_neg h, if_neg h]
    have hlevel : ((c.tickVia1 n).1 && !c.nmiLine) = false := by
      simpa [Rises] using h
    have hnext : (Phase.seen c.nmiLine).next (.sample n c.nmiLine (c.tickVia1 n).1) =
        some (.seen (c.tickVia1 n).1) := by
      simp [Phase.next, hlevel]
    rw [Phase.read, hnext]
    rfl

theorem read_irqEvents (c : Core σ) :
    (Phase.seen c.nmiLine).read c.irqEvents = some (.seen c.takeIrq.2.nmiLine) := by
  have hfollowed := read_followEvents c.enterIrq.2 c.enterIrq.1
  rw [takeIrq_follow, irqEvents, List.cons_append, Phase.read_aside, ← enterIrq_nmiLine,
    Phase.read_append hfollowed, Phase.read_aside, tickVia2_nmiLine]
  · rfl
  all_goals trivial

theorem read_irqOf (c : Core σ) :
    (Phase.seen c.polled.2.nmiLine).read (if c.polled.1 then c.polled.2.irqEvents else []) =
      some (.seen c.irqOf.2.nmiLine) := by
  unfold irqOf
  split
  · exact read_irqEvents c.polled.2
  · rfl

theorem polled_line (c : Core σ) : c.polled.2.nmiLine = c.polled.2.board.via1.interrupting := by
  rw [polled, followed_eq, tickVia2_nmiLine, tickVia2_via1]
  exact follow_line c.execute.2 c.execute.1

theorem irqOf_line (c : Core σ) : c.irqOf.2.nmiLine = c.irqOf.2.board.via1.interrupting := by
  unfold irqOf
  split
  · rw [takeIrq_follow, tickVia2_nmiLine, tickVia2_via1]
    exact follow_line c.polled.2.enterIrq.2 c.polled.2.enterIrq.1
  · exact polled_line c

/-! ### An output that is heeded over the entry -/

/-- Follows the output, and after the entry into the interrupt follows it again. -/
def heedNmi (c : Core σ) (asserted : Bool) : Nat × Core σ :=
  let seen : Core σ := { c with nmiLine := asserted }
  if asserted = true ∧ c.nmiLine = false then
    let (n, c) := seen.enterNmi
    let (nmi, c) := c.follow n
    (n + nmi, c)
  else (0, seen)

/-- An output that is as it was last seen gives nothing to follow. -/
theorem follow_level {c : Core σ} {n : Nat} (h : (c.tickVia1 n).1 = c.nmiLine) :
    c.follow n = (0, (c.tickVia1 n).2) := by
  unfold follow followNmi
  exact if_pos (beq_iff_eq.2 h)

theorem heedNmi_eq {c : Core σ} {asserted : Bool} (h : asserted = c.board.via1.interrupting) :
    c.heedNmi asserted = c.followNmi asserted := by
  rw [followNmi_eq, heedNmi]
  by_cases hrise : asserted = true ∧ c.nmiLine = false
  · have hsettles := enterNmi_asserted (c := { c with nmiLine := asserted }) (h.symm.trans hrise.1)
      (enterNmi { c with nmiLine := asserted }).1
    have hlevel := follow_level (hsettles.trans hrise.1.symm)
    rw [if_pos hrise, if_pos hrise]
    simp only [hlevel, Nat.add_zero]
  · rw [if_neg hrise, if_neg hrise]

theorem tickVia1_heedNmi (c : Core σ) (n : Nat) :
    (c.tickVia1 n).2.heedNmi (c.tickVia1 n).1 = (c.tickVia1 n).2.followNmi (c.tickVia1 n).1 :=
  heedNmi_eq rfl

def takeIrqHeeding (c : Core σ) : Nat × Core σ :=
  let ⟨cpu, board, nmiLine⟩ := c
  let (n, cpu, board) := cpu.irq board
  let (asserted, c) := Core.tickVia1 ⟨cpu, board, nmiLine⟩ n
  let (nmi, c) := c.heedNmi asserted
  (n + nmi, (c.tickVia2 (n + nmi)).2)

theorem takeIrqHeeding_eq (c : Core σ) : c.takeIrqHeeding = c.takeIrq := by
  obtain ⟨cpu, board, line⟩ := c
  simp only [takeIrqHeeding, takeIrq, tickVia1_heedNmi]

/-! ### Steps -/

variable [Storage σ]

/-- At the end of a step the line is as the output is. -/
theorem step_line (c : Core σ) : c.step.2.nmiLine = c.step.2.board.via1.interrupting := by
  rw [step_snd, advance_nmiLine, advance_interrupting]
  exact irqOf_line c

theorem read_events (c : Core σ) :
    (Phase.seen c.nmiLine).read c.events = some (.seen c.step.2.nmiLine) := by
  have hfollowed := read_followEvents c.execute.2 c.execute.1
  have hpolled : c.polled.2.nmiLine = (c.execute.2.follow c.execute.1).2.nmiLine := by
    rw [polled, followed_eq, tickVia2_nmiLine]
  rw [events, List.append_assoc, List.cons_append, Phase.read_aside, ← execute_nmiLine,
    Phase.read_append hfollowed, List.cons_append, Phase.read_aside, ← hpolled,
    Phase.read_append (read_irqOf c), Phase.read_aside, Phase.read_aside, step_snd, advance_nmiLine]
  · rfl
  all_goals trivial

/-- A step in which no output of the first adapter goes unheeded. -/
def stepHeeding (c : Core σ) : Nat × Core σ :=
  let (n, c) := c.execute
  let (asserted, c) := c.tickVia1 n
  let (nmi, c) := c.heedNmi asserted
  let (requested, c) := c.tickVia2 (n + nmi)
  let (irq, c) := if requested then c.takeIrqHeeding else (0, c)
  (n + nmi + irq, c.advance (n + nmi + irq))

/-- To leave the output unheeded over the entry loses no edge and makes up none. -/
theorem stepHeeding_eq (c : Core σ) : c.stepHeeding = c.step := by
  simp only [stepHeeding, step, tickVia1_heedNmi, takeIrqHeeding_eq]

end Core

namespace Machine

variable {σ : Type} [Storage σ]

theorem read_runEvents (m : Machine σ) (fuel run : Nat) :
    (Core.Phase.seen m.core.nmiLine).read (m.runEvents fuel run) =
      some (.seen (m.runSteps fuel run).2.core.nmiLine) := by
  induction fuel generalizing m run with
  | zero => rfl
  | succ fuel ih =>
    unfold runEvents runSteps
    by_cases hrun : Video.cyclesPerFrame ≤ run
    · rw [if_pos hrun, if_pos hrun]
      rfl
    · have hstep := Core.read_events m.core
      rw [← step_nmiLine] at hstep
      rw [if_neg hrun, if_neg hrun, Core.Phase.read_append hstep]
      exact ih m.step.2 _

theorem read_framesEvents (m : Machine σ) (count : Nat) :
    (Core.Phase.seen m.core.nmiLine).read (m.framesEvents count) =
      some (.seen (m.runFrames runFrame count).2.core.nmiLine) := by
  induction count generalizing m with
  | zero => rfl
  | succ count ih =>
    have hframe := read_runEvents m frameFuel 0
    rw [← runFrame_nmiLine] at hframe
    rw [framesEvents_succ, runFrames_succ, Core.Phase.read_append hframe]
    exact ih m.runFrame.2

theorem step_line (m : Machine σ) : m.step.2.core.nmiLine = m.step.2.core.board.via1.interrupting := by
  rw [step_nmiLine, step_via1]
  exact Core.step_line m.core

/-- The first adapter interrupts by edges, from whatever state the machine is in. After every step the line is as
the adapter's output is; over any part of a frame and over frames in a row the interrupt is entered just after
the samples that show a rise; and what the output does over the entry, where it is not looked at, could not
matter, since the entry leaves the adapter alone and a tick never takes its output back. -/
theorem edge_exact (m : Machine σ) :
    m.step.2.core.nmiLine = m.step.2.core.board.via1.interrupting ∧
    (∀ c : Core σ, Core.Run c c.events c.step.2 ∧ c.stepHeeding = c.step) ∧
    (∀ fuel run, Core.EdgeExact (m.runEvents fuel run)) ∧
    (∀ count, Core.EdgeExact (m.framesEvents count)) ∧
    (∀ (cpu : Cpu) (b : Board σ), (cpu.nmi b).2.2.via1 = b.via1 ∧ (cpu.irq b).2.2.via1 = b.via1) ∧
    ∀ (via : Via) (cycles : UInt32), via.interrupting = true → (via.tick cycles).1 = true :=
  ⟨step_line m, fun c => ⟨Core.step_run c, Core.stepHeeding_eq c⟩,
    fun fuel run => Core.edgeExact_of_read (read_runEvents m fuel run),
    fun count => Core.edgeExact_of_read (read_framesEvents m count),
    fun cpu b => ⟨Board.nmi_via1 b cpu, Board.irq_via1 b cpu⟩,
    fun _ cycles h => Via.tick_interrupting h cycles⟩

end Machine
end Vic20
