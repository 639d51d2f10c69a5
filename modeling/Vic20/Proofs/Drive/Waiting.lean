import Vic20.Proofs.Drive.Signal
import Vic20.Storage.Disk

/-! A listener that the talker leaves alone. It takes the silence for the end signal and answers it, and then waits
for as long as the silence lasts: the end signal and each answer restart the time that a byte has to begin, and
both come before that time is up. So the listener never gives the byte up (`listener_waits`). -/

namespace Vic20.Drive

/-- The talker is silent: it takes hold of neither attention nor the clock. -/
def Signal.Silent : Signal → Prop
  | .atn pulled | .clk pulled => pulled = false
  | .data _ | .pass _ => True

/-- One of the ticks finds the time passed, which is `elapsed` before them. -/
def Lapses (limit elapsed : Nat) (ss : List Signal) : Prop :=
  (∃ n, .pass n ∈ ss) ∧ limit < elapsed + cyclesIn ss

variable {limit elapsed n : Nat} {ss : List Signal}

theorem not_lapses_nil : ¬Lapses limit elapsed [] := fun ⟨⟨_, hn⟩, _⟩ => List.not_mem_nil hn

theorem ticks_of_cyclesIn (h : 0 < cyclesIn ss) : ∃ n, .pass n ∈ ss := by
  induction ss with
  | nil => exact absurd h (Nat.lt_irrefl 0)
  | cons s ss ih =>
    cases s with
    | pass n => exact ⟨n, List.mem_cons_self⟩
    | atn _ | clk _ | data _ =>
      have hrest : 0 < cyclesIn ss := by simpa [cyclesIn_cons, Signal.cycles] using h
      obtain ⟨n, hn⟩ := ih hrest
      exact ⟨n, List.mem_cons_of_mem _ hn⟩

theorem lapses_pass :
    Lapses limit elapsed (.pass n :: ss) ↔ limit < elapsed + n ∨ Lapses limit (elapsed + n) ss := by
  unfold Lapses
  rw [cyclesIn_cons, Signal.cycles, ← Nat.add_assoc]
  constructor
  · rintro ⟨-, h⟩
    by_cases hn : limit < elapsed + n
    · exact .inl hn
    · exact .inr ⟨ticks_of_cyclesIn (by omega), h⟩
  · rintro (h | ⟨-, h⟩)
    · exact ⟨⟨n, List.mem_cons_self⟩, by omega⟩
    · exact ⟨⟨n, List.mem_cons_self⟩, h⟩

theorem lapses_cons {s : Signal} (h : ∀ n, s ≠ .pass n) :
    Lapses limit elapsed (s :: ss) ↔ Lapses limit elapsed ss := by
  have hcycles : s.cycles = 0 := by
    cases s with
    | pass n => exact absurd rfl (h n)
    | atn _ | clk _ | data _ => rfl
  unfold Lapses
  rw [cyclesIn_cons, hcycles, Nat.zero_add]
  refine and_congr_left' (exists_congr fun n => ?_)
  rw [List.mem_cons, or_iff_right (h n).symm]

variable {σ : Type} [Storage σ] {d e : Drive σ}

/-- The drive waits for a byte to begin. -/
structure Listening (d : Drive σ) : Prop where
  link : d.link = .readyToReceive
  active : d.active = true
  clk : d.clk = false
  seen : d.atn = true → d.seenAtn = true

/-- A tick lets time pass, or it ends the time after which silence is the end signal, or the answer to that. -/
theorem Listening.tick (h : Listening d) (n : Nat) :
    Listening (d.tick n) ∧
      ((d.elapsed + n ≤ (if d.last then eoiAckHold else eoiTimeout) ∧ (d.tick n).elapsed = d.elapsed + n ∧
          (d.tick n).last = d.last ∧ (d.tick n).dataOut = d.dataOut) ∨
        (eoiTimeout < d.elapsed + n ∧ d.last = false ∧ (d.tick n).last = true) ∨
        (eoiAckHold < d.elapsed + n ∧ d.last = true ∧ (d.tick n).last = true ∧ (d.tick n).dataOut = false)) := by
  let w : Wire := { d.wire with seenAtn := d.atn }
  have hs : Steady d w := ⟨rfl, h.active⟩
  have hseen : d.tick n = (d.onWire w).tick n := by
    refine tick_seen (d := d) (w := d.wire) ?_
    cases hatn : d.atn
    · exact .inl hatn
    · exact .inr (h.seen hatn)
  have hlistens (w' : Wire)
      (hw : w'.link = .readyToReceive ∧ w'.clk = false ∧ w'.atn = d.atn ∧ w'.seenAtn = d.atn) :
      Listening (d.onWire w') := by
    obtain ⟨hl, hc, ha, hseen⟩ := hw
    refine ⟨hl, ?_, hc, fun hatn => hseen.trans (ha.symm.trans hatn)⟩
    have hact := h.active
    unfold Drive.active at hact ⊢
    rw [onWire_atn, onWire_arbitration, ha]
    exact hact
  rw [hseen]
  by_cases ht : d.elapsed + n ≤ if d.last then eoiAckHold else eoiTimeout
  · have hbides : Bides d { w with elapsed := w.elapsed + n } := by
      have hl : ({ w with elapsed := w.elapsed + n } : Wire).link = .readyToReceive := h.link
      unfold Bides
      rw [hl]
      exact ⟨h.clk, ht⟩
    rw [tick_bides hs hbides]
    exact ⟨hlistens _ ⟨h.link, h.clk, rfl, rfl⟩, .inl ⟨ht, rfl, rfl, rfl⟩⟩
  · cases hlast : d.last
    · have ht : eoiTimeout < d.elapsed + n := by simpa [hlast] using ht
      rw [tick_silence hs h.link ht hlast]
      exact ⟨hlistens _ ⟨h.link, h.clk, rfl, rfl⟩, .inr (.inl ⟨ht, rfl, rfl⟩)⟩
    · have ht : eoiAckHold < d.elapsed + n := by simpa [hlast] using ht
      rw [tick_answer hs h.link ht hlast]
      exact ⟨hlistens _ ⟨h.link, h.clk, rfl, rfl⟩, .inr (.inr ⟨ht, rfl, hlast, rfl⟩)⟩

omit [Storage σ] in
/-- When attention ends, a drive that is not addressed goes to rest and the others go on. -/
theorem Listening.setAtn (h : Listening d) :
    (d.setAtn false).active = false ∧ (d.setAtn false).link = .idle ∨
      Listening (d.setAtn false) ∧ d.setAtn false = d.onWire { d.wire with atn := false } := by
  by_cases hi : d.arbitration = .idle
  · have hatn : d.atn = true := by simpa [Drive.active, hi] using h.active
    have hset := setAtn_idle d d.wire hatn hi
    rw [show d.setAtn false = _ from hset]
    exact .inl ⟨by simp [Drive.active, hi], rfl⟩
  · have hset : d.setAtn false = d.onWire { d.wire with atn := false } := setAtn_addressed d d.wire hi
    rw [hset]
    exact .inr ⟨⟨h.link, by simp [Drive.active, hi], h.clk, fun hatn => absurd hatn Bool.false_ne_true⟩, rfl⟩

/-- A drive at rest stays there until attention is asked for. -/
theorem follow_idle (hact : d.active = false) (hl : d.link = .idle) (hss : ∀ s ∈ ss, s.Silent) :
    (d.follow ss).active = false ∧ (d.follow ss).link = .idle := by
  induction ss generalizing d with
  | nil => exact ⟨hact, hl⟩
  | cons s ss ih =>
    obtain ⟨hsilent, hrest⟩ := List.forall_mem_cons.mp hss
    obtain ⟨hatn, harb⟩ : d.atn = false ∧ d.arbitration = .idle := by simpa [active] using hact
    cases s with
    | atn pulled =>
      obtain rfl : pulled = false := hsilent
      refine ih (d := d.setAtn false) ?_ ?_ hrest
      · simp [setAtn, hatn, active, harb]
      · simp [setAtn, hatn, hl]
    | clk pulled => exact ih (d := d.setClk pulled) hact hl hrest
    | data pulled => exact ih (d := d.setData pulled) hact hl hrest
    | pass n =>
      have htick : d.tick n = d.onWire { d.wire with seenAtn := false } := tick_rest (w := d.wire) hatn harb
      refine ih (d := d.tick n) ?_ ?_ hrest
      · rw [htick]
        exact hact
      · rw [htick]
        exact hl

/-- What has become of a listener `d` after silence. -/
structure Waited (d : Drive σ) (ss : List Signal) (e : Drive σ) : Prop where
  rests : e.active = false → e.link = .idle
  listens : e.active = true → e.link = .readyToReceive
  last : e.active = true → (e.last = true ↔ d.last = true ∨ Lapses eoiTimeout d.elapsed ss)
  answers : e.active = true → d.last = true →
    (e.dataOut = true ↔ d.dataOut = true ∧ ¬Lapses eoiAckHold d.elapsed ss)

omit [Storage σ] in
theorem Waited.of_idle (h : e.active = false ∧ e.link = .idle) : Waited d ss e := by
  have hne : e.active ≠ true := by simp [h.1]
  exact ⟨fun _ => h.2, fun ha => absurd ha hne, fun ha => absurd ha hne, fun ha => absurd ha hne⟩

omit [Storage σ] in
/-- A line that changes takes no time. -/
theorem Waited.cons {s : Signal} {f : Drive σ} (h : Waited f ss e) (hs : ∀ n, s ≠ .pass n) (hlast : f.last = d.last)
    (helapsed : f.elapsed = d.elapsed) (hdata : f.dataOut = d.dataOut) : Waited d (s :: ss) e where
  rests := h.rests
  listens := h.listens
  last := by
    rw [lapses_cons hs, ← hlast, ← helapsed]
    exact h.last
  answers := by
    rw [lapses_cons hs, ← hlast, ← helapsed, ← hdata]
    exact h.answers

theorem Waited.pass (h : Waited (d.tick n) ss e) (hd : Listening d) : Waited d (.pass n :: ss) e where
  rests := h.rests
  listens := h.listens
  last := by
    intro hact
    rw [h.last hact, lapses_pass]
    rcases (hd.tick n).2 with ⟨ht, helapsed, hlast, -⟩ | ⟨ht, -, hlast⟩ | ⟨-, hlast, hlast', -⟩
    · rw [hlast, helapsed]
      cases hd : d.last
      · rw [hd, if_neg Bool.false_ne_true] at ht
        rw [or_iff_right (Nat.not_lt.2 ht)]
      · simp
    · simp [hlast, ht]
    · simp [hlast, hlast']
  answers := by
    intro hact hd'
    rw [lapses_pass]
    rcases (hd.tick n).2 with ⟨ht, helapsed, hlast, hdata⟩ | ⟨-, hlast, -⟩ | ⟨ht, -, hlast, hdata⟩
    · rw [h.answers hact (hlast.trans hd'), helapsed, hdata]
      rw [hd', if_pos rfl] at ht
      rw [or_iff_right (Nat.not_lt.2 ht)]
    · rw [hd'] at hlast
      cases hlast
    · rw [h.answers hact hlast, hdata]
      simp [ht]

/-- By induction on the signals, for the state that each leaves: `Listening` holds until the drive goes to rest, and
the times count from there. -/
theorem Listening.follow (h : Listening d) (hss : ∀ s ∈ ss, s.Silent) : Waited d ss (d.follow ss) := by
  induction ss generalizing d with
  | nil =>
    have hact : d.active ≠ false := by simp [h.active]
    exact ⟨fun ha => absurd ha hact, fun _ => h.link, fun _ => (or_iff_left not_lapses_nil).symm,
      fun _ _ => (and_iff_left not_lapses_nil).symm⟩
  | cons s ss ih =>
    obtain ⟨hsilent, hrest⟩ := List.forall_mem_cons.mp hss
    cases s with
    | atn pulled =>
      obtain rfl : pulled = false := hsilent
      rcases h.setAtn with ⟨hact, hl⟩ | ⟨hlistens, hset⟩
      · exact Waited.of_idle (follow_idle (d := d.setAtn false) hact hl hrest)
      · refine (ih hlistens hrest).cons (fun n => nofun) ?_ ?_ ?_ <;> rw [hset] <;> rfl
    | clk pulled =>
      obtain rfl : pulled = false := hsilent
      exact (ih (d := d.setClk false) ⟨h.link, h.active, rfl, h.seen⟩ hrest).cons (fun n => nofun) rfl rfl rfl
    | data pulled =>
      exact (ih (d := d.setData pulled) ⟨h.link, h.active, h.clk, h.seen⟩ hrest).cons (fun n => nofun) rfl rfl rfl
    | pass n => exact (ih (h.tick n).1 hrest).pass h

omit [Storage σ] in
theorem Waited.link_ne (h : Waited d ss e) : e.link ≠ .goToIdle := by
  intro hl
  cases hact : e.active
  · exact absurd (hl.symm.trans (h.rests hact)) (by decide)
  · exact absurd (hl.symm.trans (h.listens hact)) (by decide)

/-- A listener that the talker leaves alone waits for as long as it is ticked, whatever the ticks. Once the silence
has lasted more than 256 cycles the next byte counts as the last, and data is held for more than sixty cycles to
answer that. Only a drive that is not addressed stops waiting, when attention ends. -/
theorem listener_waits (hl : d.link = .readyToReceive) (hact : d.active = true) (hclk : d.clk = false)
    (hseen : d.atn = true → d.seenAtn = true) (hss : ∀ s ∈ ss, s.Silent) :
    let e := d.follow ss
    e.link ≠ .goToIdle ∧ (e.active = false → e.link = .idle) ∧
      (e.active = true → e.link = .readyToReceive ∧
        (e.last = true ↔ d.last = true ∨ Lapses 256 d.elapsed ss) ∧
        (d.last = true → (e.dataOut = true ↔ d.dataOut = true ∧ ¬Lapses 60 d.elapsed ss))) := by
  intro e
  have h : Waited d ss e := Listening.follow ⟨hl, hact, hclk, hseen⟩ hss
  exact ⟨h.link_ne, h.rests, fun hact => ⟨h.listens hact, h.last hact, h.answers hact⟩⟩

/-- A drive that has been told to listen, while the computer is about to send a byte. -/
def listener : Drive Disk :=
  ((Drive.new 8 : Drive Disk).command 0x28).follow [.clk true, .pass 10, .clk false, .pass 10]

/-- A thousand cycles. -/
theorem listener_waits_long :
    listener.link = .readyToReceive ∧ listener.active = true ∧ listener.clk = false ∧
      (listener.atn = true → listener.seenAtn = true) ∧ (∀ s ∈ passes [500, 0, 500], s.Silent) ∧
      (listener.follow (passes [500, 0, 500])).link = .readyToReceive := by
  have hl : listener.link = .readyToReceive := by decide
  have hact : listener.active = true := by decide
  have hclk : listener.clk = false := by decide
  have hatn : listener.atn = true → listener.seenAtn = true := by decide
  have hss : ∀ s ∈ passes [500, 0, 500], s.Silent := by
    intro s hs
    obtain ⟨n, -, rfl⟩ := List.mem_map.mp hs
    trivial
  exact ⟨hl, hact, hclk, hatn, hss, ((listener_waits hl hact hclk hatn hss).2.2 (by decide)).1⟩

/-- The link is given up at no time, far beyond the times of the end signal, its answer and the byte. -/
theorem listener_outlasts_timeout :
    listener.link = .readyToReceive ∧ listener.active = true ∧ listener.clk = false ∧ listener.atn = false ∧
      (∀ n ∈ List.replicate 100 22, 1 ≤ n ∧ n ≤ 22) ∧ 2048 < (List.replicate 100 22).sum ∧
      ∀ us vs, passes (List.replicate 100 22) = us ++ vs → (listener.follow us).link ≠ .goToIdle := by
  refine ⟨by decide, by decide, by decide, by decide, by decide, by decide, fun us vs hus => ?_⟩
  have hlistens : Listening listener := ⟨by decide, by decide, by decide, by decide⟩
  refine (hlistens.follow fun s hs => ?_).link_ne
  obtain ⟨n, -, rfl⟩ := List.mem_map.mp (hus ▸ List.mem_append_left vs hs)
  trivial

end Vic20.Drive
