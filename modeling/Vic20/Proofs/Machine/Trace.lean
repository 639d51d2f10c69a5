import Vic20.Proofs.Machine.Keeps

/-! What happens in a step, event by event. An event says for how many cycles the processor was busy or a chip
was advanced, and what an adapter's interrupt output was after that. The events of a step are a run from the core
before it to the core after it, and a frame's events are those of its steps in a row. -/

namespace Vic20

namespace Core

/-- What happens to the core. A sample advances the first adapter and looks at its output, and `line` is what the
last look has shown. Over the entry into its interrupt the adapter settles: it is advanced without a look. The
drive is advanced together with a look at the serial lines. -/
inductive Event where
  | instruction (cycles : Nat)
  | irq (cycles : Nat)
  | nmi (cycles : Nat)
  | sample (cycles : Nat) (line asserted : Bool)
  | settle (cycles : Nat) (asserted : Bool)
  | via2 (cycles : Nat) (requested : Bool)
  | vic (cycles : Nat)
  | drive (cycles : Nat)
  deriving DecidableEq, Repr

variable {σ : Type}

def enterIrq (c : Core σ) : Nat × Core σ :=
  let (n, cpu, board) := c.cpu.irq c.board
  (n, ⟨cpu, board, c.nmiLine⟩)

def enterNmi (c : Core σ) : Nat × Core σ :=
  let (n, cpu, board) := c.cpu.nmi c.board
  (n, ⟨cpu, board, c.nmiLine⟩)

/-- The first adapter advanced, and its output seen. -/
def sampled (c : Core σ) (cycles : Nat) : Core σ :=
  { (c.tickVia1 cycles).2 with nmiLine := (c.tickVia1 cycles).1 }

/-! ### The events of a step -/

theorem followNmi_eq (c : Core σ) (asserted : Bool) :
    c.followNmi asserted =
      let seen : Core σ := { c with nmiLine := asserted }
      if asserted = true ∧ c.nmiLine = false then
        (seen.enterNmi.1, (seen.enterNmi.2.tickVia1 seen.enterNmi.1).2)
      else (0, seen) := by
  obtain ⟨cpu, board, line⟩ := c
  cases asserted <;> cases line <;> rfl

/-- The first adapter advanced, and its output followed. -/
def follow (c : Core σ) (cycles : Nat) : Nat × Core σ := (c.tickVia1 cycles).2.followNmi (c.tickVia1 cycles).1

/-- The output rises when the first adapter is advanced. -/
def Rises (c : Core σ) (cycles : Nat) : Prop := (c.tickVia1 cycles).1 = true ∧ c.nmiLine = false

instance (c : Core σ) (cycles : Nat) : Decidable (c.Rises cycles) := inferInstanceAs (Decidable (_ ∧ _))

/-- A rise is followed by the entry into its interrupt. Else the output is only seen. -/
theorem follow_eq (c : Core σ) (n : Nat) :
    c.follow n =
      if c.Rises n then
        ((c.sampled n).enterNmi.1, ((c.sampled n).enterNmi.2.tickVia1 (c.sampled n).enterNmi.1).2)
      else (0, c.sampled n) :=
  followNmi_eq (c.tickVia1 n).2 (c.tickVia1 n).1

/-- The interrupt that follows a sample. -/
def nmiEvents (c : Core σ) : List Event :=
  [.nmi c.enterNmi.1, .settle c.enterNmi.1 (c.enterNmi.2.tickVia1 c.enterNmi.1).1]

def followEvents (c : Core σ) (cycles : Nat) : List Event :=
  .sample cycles c.nmiLine (c.tickVia1 cycles).1 ::
    if c.Rises cycles then (c.sampled cycles).nmiEvents else []

def irqEvents (c : Core σ) : List Event :=
  let n := c.enterIrq.1 + (c.enterIrq.2.follow c.enterIrq.1).1
  .irq c.enterIrq.1 :: c.enterIrq.2.followEvents c.enterIrq.1 ++
    [.via2 n ((c.enterIrq.2.follow c.enterIrq.1).2.tickVia2 n).1]

theorem followed_eq (c : Core σ) : c.followed = c.execute.2.follow c.execute.1 := rfl

theorem takeIrq_follow (c : Core σ) :
    c.takeIrq =
      let n := c.enterIrq.1 + (c.enterIrq.2.follow c.enterIrq.1).1
      (n, ((c.enterIrq.2.follow c.enterIrq.1).2.tickVia2 n).2) :=
  takeIrq_eq c

/-! ### What leaves the first adapter and its line alone -/

section Line

variable (c : Core σ) (n : Nat)

@[simp] theorem execute_nmiLine : c.execute.2.nmiLine = c.nmiLine := by
  obtain ⟨cpu, board, line⟩ := c
  rfl

@[simp] theorem enterIrq_nmiLine : c.enterIrq.2.nmiLine = c.nmiLine := by
  obtain ⟨cpu, board, line⟩ := c
  rfl

@[simp] theorem tickVia2_nmiLine : (c.tickVia2 n).2.nmiLine = c.nmiLine := by
  obtain ⟨cpu, board, line⟩ := c
  rfl

@[simp] theorem tickVia2_via1 : (c.tickVia2 n).2.board.via1 = c.board.via1 := by
  obtain ⟨cpu, ⟨memory, vic, via1, via2, keyboard, joystick, drive⟩, line⟩ := c
  rfl

end Line

/-! ### Runs -/

variable [Storage σ]

/-- What an event does to the core, and that it tells of it truly. -/
inductive Happens : Core σ → Event → Core σ → Prop
  | instruction (c : Core σ) : Happens c (.instruction c.execute.1) c.execute.2
  | irq (c : Core σ) : Happens c (.irq c.enterIrq.1) c.enterIrq.2
  | nmi (c : Core σ) : Happens c (.nmi c.enterNmi.1) c.enterNmi.2
  | sample (c : Core σ) (n : Nat) : Happens c (.sample n c.nmiLine (c.tickVia1 n).1) (c.sampled n)
  | settle (c : Core σ) (n : Nat) : Happens c (.settle n (c.tickVia1 n).1) (c.tickVia1 n).2
  | via2 (c : Core σ) (n : Nat) : Happens c (.via2 n (c.tickVia2 n).1) (c.tickVia2 n).2
  | vic (c : Core σ) (n : Nat) : Happens c (.vic n) { c with board := c.board.tickVic n }
  | drive (c : Core σ) (n : Nat) : Happens c (.drive n) { c with board := (c.board.tickDrive n).syncSerial }

inductive Run : Core σ → List Event → Core σ → Prop
  | nil (c : Core σ) : Run c [] c
  | cons {c d e : Core σ} {event : Event} {events : List Event} (h : Happens c event d) (hs : Run d events e) :
    Run c (event :: events) e

variable {c d e : Core σ} {n : Nat} {es fs : List Event}

theorem Run.append (h : Run c es d) (h' : Run d fs e) : Run c (es ++ fs) e := by
  induction h with
  | nil => exact h'
  | cons hd _ ih => exact .cons hd (ih h')

theorem advance_nmiLine (c : Core σ) (n : Nat) : (c.advance n).nmiLine = c.nmiLine := by
  obtain ⟨cpu, board, line⟩ := c
  rfl

/-- The drive's lines are inputs of the adapter that do not interrupt. -/
theorem advance_interrupting (c : Core σ) (n : Nat) :
    (c.advance n).board.via1.interrupting = c.board.via1.interrupting := by
  obtain ⟨cpu, ⟨memory, vic, via1, via2, keyboard, joystick, drive⟩, line⟩ := c
  rfl

/-- The events of a step. -/
def events (c : Core σ) : List Event :=
  .instruction c.execute.1 :: c.execute.2.followEvents c.execute.1 ++
    .via2 (c.execute.1 + c.followed.1) c.polled.1 ::
      (if c.polled.1 then c.polled.2.irqEvents else []) ++
    [.vic c.step.1, .drive c.step.1]

/-! ### The run of a step -/

theorem follow_run (c : Core σ) (n : Nat) : Run c (c.followEvents n) (c.follow n).2 := by
  rw [follow_eq, followEvents]
  by_cases h : c.Rises n
  · rw [if_pos h, if_pos h]
    exact .cons (.sample c n) (.cons (.nmi _) (.cons (.settle _ _) (.nil _)))
  · rw [if_neg h, if_neg h]
    exact .cons (.sample c n) (.nil _)

theorem takeIrq_run (c : Core σ) : Run c c.irqEvents c.takeIrq.2 := by
  have hfollowed := follow_run c.enterIrq.2 c.enterIrq.1
  rw [takeIrq_follow]
  exact .cons (.irq c) (hfollowed.append (.cons (.via2 _ _) (.nil _)))

theorem irqOf_run (c : Core σ) :
    Run c.polled.2 (if c.polled.1 then c.polled.2.irqEvents else []) c.irqOf.2 := by
  unfold irqOf
  split
  · exact takeIrq_run c.polled.2
  · exact .nil _

theorem advance_run (c : Core σ) (n : Nat) : Run c [.vic n, .drive n] (c.advance n) :=
  .cons (.vic c n) (.cons (.drive _ n) (.nil _))

/-- The events of a step lead from the core before it to the core after it. -/
theorem step_run (c : Core σ) : Run c c.events c.step.2 := by
  rw [step_snd]
  refine .cons (.instruction c) (Run.append ?_ (advance_run _ _))
  exact (follow_run c.execute.2 c.execute.1).append (.cons (.via2 _ _) (irqOf_run c))

end Core

namespace Machine

variable {σ : Type} [Storage σ] {m : Machine σ}

/-- The events of the steps that are run. -/
def runEvents (m : Machine σ) : (fuel run : Nat) → List Core.Event
  | 0, _ => []
  | fuel + 1, run =>
    if Video.cyclesPerFrame ≤ run then []
    else m.core.events ++ m.step.2.runEvents fuel (run + m.step.1)

/-- The events of frames in a row. -/
def framesEvents (m : Machine σ) : (count : Nat) → List Core.Event
  | 0 => []
  | count + 1 => m.runEvents frameFuel 0 ++ m.runFrame.2.framesEvents count

theorem framesEvents_succ (m : Machine σ) (count : Nat) :
    m.framesEvents (count + 1) = m.runEvents frameFuel 0 ++ m.runFrame.2.framesEvents count := rfl

/-! ### What is done between steps and between frames -/

theorem runSteps_succ (m : Machine σ) (fuel : Nat) {run : Nat} (h : run < Video.cyclesPerFrame) :
    m.runSteps (fuel + 1) run = m.step.2.runSteps fuel (run + m.core.step.1) :=
  if_neg (Nat.not_le.2 h)

/-- A step of the machine is a step of its core. What the drive has noted goes to the journal. -/
theorem step_snd (m : Machine σ) :
    ∃ drive journal, m.step.2 =
      { m with core := { m.core.step.2 with board := { m.core.step.2.board with drive } }, journal } := by
  have hcollect (m : Machine σ) : ∃ drive journal, m.collectDrive =
      { m with core := { m.core with board := { m.core.board with drive } }, journal } := by
    unfold collectDrive
    split
    · exact ⟨m.core.board.drive, m.journal, rfl⟩
    · exact ⟨_, _, rfl⟩
  exact hcollect _

theorem step_cpu (m : Machine σ) : m.step.2.core.cpu = m.core.step.2.cpu := by
  obtain ⟨drive, journal, h⟩ := step_snd m
  rw [h]

theorem step_nmiLine (m : Machine σ) : m.step.2.core.nmiLine = m.core.step.2.nmiLine := by
  obtain ⟨drive, journal, h⟩ := step_snd m
  rw [h]

theorem step_via1 (m : Machine σ) : m.step.2.core.board.via1 = m.core.step.2.board.via1 := by
  obtain ⟨drive, journal, h⟩ := step_snd m
  rw [h]

theorem step_cycle (m : Machine σ) : m.step.2.cycle = m.cycle := by
  obtain ⟨drive, journal, h⟩ := step_snd m
  rw [h]

theorem runFrame_fst (m : Machine σ) : m.runFrame.1 = (m.runSteps frameFuel 0).1 := by
  unfold runFrame
  rfl

theorem runFrame_cpu (m : Machine σ) : m.runFrame.2.core.cpu = (m.runSteps frameFuel 0).2.core.cpu := by
  unfold runFrame
  rfl

theorem runFrame_nmiLine (m : Machine σ) :
    m.runFrame.2.core.nmiLine = (m.runSteps frameFuel 0).2.core.nmiLine := by
  unfold runFrame
  rfl

end Machine
end Vic20
