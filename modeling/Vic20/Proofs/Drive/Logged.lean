import Vic20.Proofs.Drive.Invariant

/-! What a drive notes is for others to read. The drive itself does the same whatever it has noted before: events
put before its journal stay there, and nothing else changes. -/

namespace Vic20.Drive

variable {σ : Type}

/-- The drive with events put before those that it has noted. -/
def logged (j : Array Event) (d : Drive σ) : Drive σ := { d with journal := j ++ d.journal }

theorem append_push (j es : Array Event) (e : Event) : (j ++ es).push e = j ++ es.push e := Array.append_push.symm

variable (d : Drive σ) (j : Array Event)

theorem logged_current? : (d.logged j).current? = d.current? := rfl

theorem logged_onWire (w : Wire) : (d.logged j).onWire w = (d.onWire w).logged j := rfl

theorem setAtn_logged (pulled : Bool) : (d.logged j).setAtn pulled = (d.setAtn pulled).logged j := by
  have hlets : ((d.logged j).atn && !pulled && (d.logged j).arbitration == .idle) =
      (d.atn && !pulled && d.arbitration == .idle) := rfl
  unfold setAtn
  rw [hlets]
  split_ifs <;> rfl

variable [Storage σ]

theorem command_logged (v : UInt8) : (d.logged j).command v = (d.command v).logged j := by
  by_cases h₆ : (v &&& 0xE0).toNat = 0x60
  · have hnote := note_placed d id (append_push j) (.command v)
    rw [command_secondary h₆, command_secondary h₆]
    change (if d.arbitration = .idle then _ else if d.arbitration = .talking then _ else _) = _
    split_ifs
    · exact hnote
    · exact congrArg (fun d : Drive σ => ({ d with channel := some (v &&& 0x1F) } : Drive σ).enter .turnAround) hnote
    · exact congrArg (fun d : Drive σ => { d with channel := some (v &&& 0x1F) }) hnote
  · exact command_placed d id (append_push j) h₆

theorem receive_logged (v : UInt8) : (d.logged j).receive v = (d.receive v).logged j := by
  unfold receive
  rw [command_logged]
  change (if d.atn then _ else _) = _
  split_ifs
  · rfl
  · exact collect_placed d id (append_push j) v

theorem fetch_logged : (d.logged j).fetch = d.fetch.logged j := by
  have hstorage (u : σ → Except Storage.Fault (UInt8 × Storage.Handle) × σ) :=
    useStorage_placed d id (g := (j ++ ·)) u .reading
  unfold fetch
  rw [logged_current?]
  rcases d.current? with _ | (_ | (_ | ⟨v, rest⟩) | ⟨file, _ | remaining⟩ | _) <;> try rfl
  · exact setCurrent_placed { d with byte := v, last := rest.isEmpty } id (g := (j ++ ·)) _
  · dsimp only
    rw [show (d.logged j).useStorage _ _ = _ from hstorage (Storage.read · file)]
    rcases d.useStorage (Storage.read · file) .reading with ⟨e | ⟨v, file⟩, d⟩
    · exact congrArg (fun d : Drive σ => { d with empty := true }) (note_placed d id (append_push j) _)
    · exact setCurrent_placed { d with byte := v, last := remaining == 0 } id (g := (j ++ ·)) _

/-- A step reads the wire, and reaches the journal through what it receives or fetches. -/
theorem step_logged (w : Wire) : ((d.logged j).onWire w).step = (d.onWire w).step.logged j := by
  by_cases hq : (w.link = .dataAccepted ∨ w.link = .waitReceiverReady) ∧ w.data = false
  · obtain ⟨hl | hl, hd⟩ := hq
    · rw [step_accept hl hd, step_accept hl hd]
      exact receive_logged (d.onWire w.acknowledged) j w.byte
    · rw [step_fetch hl hd, step_fetch hl hd, logged_onWire, fetch_logged]
      rfl
  · unfold step
    cases hl : w.link <;> simp only [onWire_link, hl]
    case dataAccepted | waitReceiverReady =>
      have hd : w.data = true := by simpa [hl] using hq
      rw [onWire_data, if_pos hd, onWire_data, if_pos hd]
      rfl
    all_goals
      simp only [apply_ite (logged j)]
      rfl

theorem tick_logged (cycles : Nat) : (d.logged j).tick cycles = (d.tick cycles).logged j := by
  have hd : (d.logged j).tick cycles = _ := tick_onWire (d := d.logged j) (w := d.wire) cycles
  have hd' : d.tick cycles = _ := tick_onWire (w := d.wire) cycles
  rw [hd, hd', step_logged]
  change (if _ || d.arbitration != .idle then _ else _) = _
  split_ifs <;> rfl

/-! ### Drives that differ in their journals -/

/-- Drives that are equal but for what they have noted. -/
def Twin (d e : Drive σ) : Prop := d.takeJournal.2 = e.takeJournal.2

variable {d} {e : Drive σ}

omit [Storage σ] in
theorem Twin.exists_logged (h : Twin d e) : ∃ s j k, d = logged j s ∧ e = logged k s := by
  have hlogged (d : Drive σ) : d = d.takeJournal.2.logged d.journal := by
    simp only [logged, takeJournal, Array.append_empty]
  exact ⟨d.takeJournal.2, d.journal, e.journal, hlogged d, (hlogged e).trans (congrArg _ h.symm)⟩

omit [Storage σ] in
/-- What goes on behind events put before the journal is done to twins alike. -/
theorem Twin.map {f : Drive σ → Drive σ} (hf : ∀ j d, f (logged j d) = logged j (f d)) (h : Twin d e) :
    Twin (f d) (f e) := by
  obtain ⟨s, j, k, rfl, rfl⟩ := h.exists_logged
  rw [hf, hf]
  rfl

theorem Twin.tick (h : Twin d e) (cycles : Nat) : Twin (d.tick cycles) (e.tick cycles) :=
  h.map (f := (·.tick cycles)) fun j d => tick_logged d j cycles

omit [Storage σ] in
/-- A reset keeps the device, the storage and the form of listings, and nothing else but the journal. -/
theorem reset_twin (hdevice : d.device = e.device) (hstorage : d.storage = e.storage)
    (hlong : d.longDirectory = e.longDirectory) : Twin d.reset e.reset := by
  simp only [Twin, reset, takeJournal, hdevice, hstorage, hlong]

omit [Storage σ] in
theorem Twin.eq {α : Type} (h : Twin d e) (f : Drive σ → α) (hf : ∀ d, f d.takeJournal.2 = f d) : f d = f e := by
  rw [← hf, h, hf]

theorem Twin.apply (h : Twin d e) (o : Operation σ) : Twin (d.apply o) (e.apply o) := by
  cases o with
  | signal s =>
    cases s with
    | atn pulled => exact h.map (f := (·.setAtn pulled)) fun j d => setAtn_logged d j pulled
    | clk pulled => exact h.map (f := (·.setClk pulled)) fun _ _ => rfl
    | data pulled => exact h.map (f := (·.setData pulled)) fun _ _ => rfl
    | pass cycles => exact h.tick cycles
  | attach storage => exact h.map (f := fun d => { d with storage := some storage }) fun _ _ => rfl
  | listings long => exact h.map (f := fun d => { d with longDirectory := long }) fun _ _ => rfl
  | reset =>
    exact reset_twin (h.eq device fun _ => rfl) (h.eq storage fun _ => rfl) (h.eq longDirectory fun _ => rfl)
  | takeJournal => exact h

end Vic20.Drive
