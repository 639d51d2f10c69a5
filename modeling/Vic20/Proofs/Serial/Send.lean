import Vic20.Proofs.Drive.Work
import Vic20.Proofs.Serial.Runs

/-! Bytes sent by the computer. Each one is acknowledged and acts on the drive's work as `hear` says; so
commands, and a burst between them, come down to the work alone (`yields_tell`). -/

namespace Vic20.Serial

open Drive

variable {σ : Type} [Storage σ] {d e : Drive σ} {w : Wire}

/-- The wire of a drive that is ready for a byte. -/
def ready (w : Wire) (last : Bool) : Wire :=
  { w with clk := false, dataOut := false, last, link := .readyToReceive, elapsed := 0 }

/-- The wire after a byte. -/
def sent (w : Wire) (v : UInt8) (last : Bool) : Wire :=
  { w with
    clk := true, data := false, dataOut := true, last, bit := 8, byte := v
    link := if last then .goToIdle else .senderProbing, elapsed := 0 }

/-- The wire after a byte that may have turned the link around. -/
def left (d : Drive σ) (w : Wire) (v : UInt8) (last : Bool) : Wire :=
  if w.atn ∧ d.Turns v then (sent w v last).turned else sent w v last

omit [Storage σ] in
theorem left_dataOut (v : UInt8) (last : Bool) : (left d w v last).dataOut = true := by
  unfold left
  split_ifs <;> rfl

theorem yields_listener (hs : Steady d w) (hl : w.link = .senderProbing) (hd : w.dataOut = true) :
    Yields (wait "listener" (!·.dataOut)) (d.onWire { w with clk := false }) 10 (d.onWire (ready w false)) := by
  refine (waitFor_pass (by simp [hd]) ?_)
  rw [tick_ready (w := { w with clk := false }) hs hl rfl]
  exact waitFor_shown rfl (by decide)

theorem yields_eoiAck (hs : Steady d w) :
    Yields (wait "eoi ack" (·.dataOut)) (d.onWire (ready w false)) 260
      (d.onWire { ready w true with dataOut := true }) := by
  have ht := tick_silence (n := 10) (w := { ready w false with elapsed := 250 }) hs rfl
    (by decide : eoiTimeout < 260) rfl
  exact waitFor_bides (w := ready w false) 25 hs ⟨rfl, (by decide : 250 ≤ eoiTimeout)⟩ (fun _ => rfl) ht rfl
    (by decide)

theorem yields_eoiEnd (hs : Steady d w) :
    Yields (wait "eoi end" (!·.dataOut)) (d.onWire { ready w true with dataOut := true }) 70
      (d.onWire (ready w true)) := by
  have ht := tick_answer (n := 10) (w := { ready w true with dataOut := true, elapsed := 60 }) hs rfl
    (by decide : eoiAckHold < 70) rfl
  exact waitFor_bides (w := { ready w true with dataOut := true }) 6 hs
    ⟨rfl, (by decide : 60 ≤ eoiAckHold)⟩ (fun _ => rfl) ht rfl (by decide)

/-- The bits of a byte and its acknowledgement. -/
theorem yields_frame (hs : Steady d w) (v : UInt8) (last : Bool) :
    Yields (do
      lines (·.setClk true)
      pass 20
      sendBits v 8
      lines (·.setData false)
      pass 20
      return (← get).dataOut) (d.onWire (ready w last)) true
      ((d.hear w.atn v).onWire (left d w v last)) := by
  have hbegin := tick_begin (n := 20) (w := { ready w last with clk := true }) hs rfl rfl
    (show 0 + 20 ≤ if last then eoiAckHold else eoiTimeout by cases last <;> decide)
  have hbits := sendBits_byte (d := d)
    (w := { ready w last with clk := true, bit := 0, byte := 0, link := .waitDataValid }) v hs rfl rfl rfl
  have htaken : (d.onWire { sent w v last with dataOut := false, link := .dataAccepted }).tick 20 =
      (d.hear w.atn v).onWire (left d w v last) :=
    (tick_accept (w := { sent w v last with dataOut := false, link := .dataAccepted }) hs rfl rfl).trans
      (receive_onWire d (sent w v last) v)
  refine (yields_lines _ _).bind ((yields_pass hbegin).bind (hbits.bind ((yields_lines _ _).bind
    ((yields_pass htaken).bind ((yields_get _).bind ?_)))))
  rw [onWire_dataOut, left_dataOut]
  exact .pure _ _

theorem yields_send (hs : Steady d w) (hl : w.link = .senderProbing) (hd : w.dataOut = true) (v : UInt8)
    (last : Bool) :
    Yields (send v last) (d.onWire w) true
      ((d.hear w.atn v).onWire (left d w v last)) := by
  refine (yields_lines _ _).bind ((yields_listener hs hl hd).bind ?_)
  cases last with
  | false => exact yields_frame hs v false
  | true => exact (yields_eoiAck hs).bind ((yields_eoiEnd hs).bind (yields_frame hs v true))

/-! ### Commands -/

theorem yields_attention (hs : w.seenAtn = false) :
    ∃ w', Yields attention (d.onWire w) () (d.onWire w') ∧ Held w' ∧ w'.link = .senderProbing := by
  obtain ⟨w', hw, h⟩ := watch_attention (d := d) hs ⟨10, [], by decide⟩
  have hw : ((d.onWire w).watch [.clk true, .atn true, .pass 10]).2 = d.onWire w' := congrArg Prod.snd hw
  exact ⟨w', hw ▸ rfl, h⟩

/-- A byte under attention is a command. -/
theorem yields_commandByte (h : Held w) (hl : w.link = .senderProbing) (v : UInt8) :
    ∃ w', Yields (send v false) (d.onWire w) true ((d.command v).onWire w') ∧ Held w' ∧
      w'.link = if d.Turns v then .turnAround else .senderProbing := by
  have hrun := yields_send (d := d) h.steady hl h.dataOut v false
  have hhear : d.hear w.atn v = d.command v := by rw [h.atn]; rfl
  rw [hhear] at hrun
  refine ⟨_, hrun, ?_⟩
  by_cases hv : d.Turns v
  · rw [left, if_pos ⟨h.atn, hv⟩, if_pos hv]
    exact ⟨⟨h.atn, h.seen, rfl, h.clkOut, rfl, .inr rfl⟩, rfl⟩
  · rw [left, if_neg (fun hx => hv hx.2), if_neg hv]
    exact ⟨⟨h.atn, h.seen, rfl, h.clkOut, rfl, .inl rfl⟩, rfl⟩

/-- None of the bytes turns the link around. -/
def Stays (d : Drive σ) : List UInt8 → Prop
  | [] => True
  | v :: vs => ¬d.Turns v ∧ Stays (d.command v) vs

theorem yields_commands (h : Held w) (hl : w.link = .senderProbing) {bytes : List UInt8}
    (hb : Stays d bytes) :
    ∃ w', Yields (bytes.mapM (send · false)) (d.onWire w) (bytes.map fun _ => true)
        ((bytes.foldl Drive.command d).onWire w') ∧ Held w' ∧ w'.link = .senderProbing := by
  induction bytes generalizing d w with
  | nil => exact ⟨w, .pure _ _, h, hl⟩
  | cons v bytes ih =>
    obtain ⟨w₁, hv, h₁, hl₁⟩ := yields_commandByte (d := d) h hl v
    rw [if_neg hb.1] at hl₁
    obtain ⟨w', hbytes, h'⟩ := ih h₁ hl₁ hb.2
    exact ⟨w', Yields.cons (p := (send · false)) hv hbytes, h'⟩

/-- A drive addressed to listen, after attention. -/
structure Listens (d : Drive σ) (w : Wire) : Prop where
  atn : w.atn = false
  seen : w.seenAtn = false
  dataOut : w.dataOut = true
  link : w.link = .senderProbing
  addressed : d.arbitration ≠ .idle

omit [Storage σ] in
theorem Listens.steady (h : Listens d w) : Steady d w := ⟨h.seen.trans h.atn.symm, by simp [h.addressed]⟩

theorem yields_release (h : Held w) (hl : w.link = .senderProbing) :
    ∃ w', Yields release (d.onWire w) () (d.onWire w') ∧ w'.atn = false ∧ w'.seenAtn = false ∧
      (d.arbitration ≠ .idle → Listens d w') := by
  by_cases hi : d.arbitration = .idle
  · have ht : ((d.onWire w).setAtn false).tick 10 = d.onWire { w with
        atn := false, seenAtn := false, clkOut := false, dataOut := false, link := .idle, elapsed := 0 } := by
      rw [setAtn_idle d w h.atn hi]
      exact tick_rest (w := { w with
        atn := false, seenAtn := false, clkOut := false, dataOut := false, link := .idle, elapsed := 0 }) rfl hi
    exact ⟨_, (yields_lines _ _).bind (yields_pass ht), rfl, rfl, absurd hi⟩
  · have hk : Listens d { w with atn := false, seenAtn := false, elapsed := w.elapsed + 10 } :=
      ⟨rfl, rfl, h.dataOut, hl, hi⟩
    have ht : ((d.onWire w).setAtn false).tick 10 =
        d.onWire { w with atn := false, seenAtn := false, elapsed := w.elapsed + 10 } := by
      rw [setAtn_addressed d w hi, tick_seen (w := { w with atn := false }) (.inl rfl)]
      exact tick_bides (w := { w with atn := false, seenAtn := false }) hk.steady (by simp [Bides, hl, h.clk])
    exact ⟨_, (yields_lines _ _).bind (yields_pass ht), rfl, rfl, fun _ => hk⟩

/-- Commands that do not turn the link around do their work, and those that make the drive a listener leave
it ready for a burst. -/
theorem yields_command (hs : w.seenAtn = false) {bytes : List UInt8} (hb : Stays d bytes) :
    ∃ w', Yields (command bytes) (d.onWire w) (bytes.map fun _ => true)
        ((bytes.foldl Drive.command d).onWire w') ∧ w'.atn = false ∧ w'.seenAtn = false ∧
      ((bytes.foldl Drive.command d).arbitration ≠ .idle → Listens (bytes.foldl Drive.command d) w') := by
  obtain ⟨w₁, hattention, h₁, hl₁⟩ := yields_attention (d := d) hs
  obtain ⟨w₂, hsends, h₂, hl₂⟩ := yields_commands h₁ hl₁ hb
  obtain ⟨w₃, hrelease, h₃⟩ := yields_release (d := bytes.foldl Drive.command d) h₂ hl₂
  exact ⟨w₃, hattention.bind (hsends.bind (hrelease.bind (.pure _ _))), h₃⟩

/-! ### Bursts -/

/-- A byte outside attention is data. -/
theorem yields_data (h : Listens d w) (v : UInt8) (last : Bool) :
    Yields (send v last) (d.onWire w) true ((d.collect v).onWire (sent w v last)) := by
  have hrun := yields_send h.steady h.link h.dataOut v last
  have hhear : d.hear w.atn v = d.collect v := by rw [h.atn]; rfl
  rwa [hhear, left, if_neg (by simp [h.atn])] at hrun

theorem yields_sendAll (h : Listens d w) (bytes : List UInt8) :
    ∃ w', Yields (sendAll bytes) (d.onWire w) (bytes.map fun _ => true)
        ((bytes.foldl collect d).onWire w') ∧ w'.seenAtn = false := by
  induction bytes using sendAll.induct generalizing d w with
  | case1 => exact ⟨w, .pure _ _, h.seen⟩
  | case2 v => exact ⟨sent w v true, (yields_data h v true).bind (.pure _ _), h.seen⟩
  | case3 v bytes hne ih =>
    have hnext : Listens (d.collect v) (sent w v false) :=
      ⟨h.atn, h.seen, rfl, rfl, by rw [collect_arbitration]; exact h.addressed⟩
    obtain ⟨w', hbytes, hs⟩ := ih hnext
    rw [sendAll]
    · exact ⟨w', (yields_data h v false).bind (hbytes.bind (.pure _ _)), hs⟩
    · exact hne

/-- What a drive answers that takes every byte it is told. -/
def taken (bytes : List UInt8) : List Bool × List Bool × List Bool :=
  ([true, true], bytes.map fun _ => true, [true])

/-- What a listener is told comes down to the work: two commands, the bytes and the end. -/
theorem yields_tell (device second : UInt8) (bytes : List UInt8) (hs : d.seenAtn = false)
    (hb : Stays d [listenTo device, second])
    (hlistens : ((d.command (listenTo device)).command second).arbitration ≠ .idle) :
    ∃ e, Yields (tell device second bytes) d (taken bytes) e ∧
      SameWork ((bytes.foldl collect ((d.command (listenTo device)).command second)).command unlisten) e ∧
      e.seenAtn = false := by
  have hunlisten (e : Drive σ) : Stays e [unlisten] := ⟨not_turns (by decide), trivial⟩
  obtain ⟨w₁, hbefore, -, -, h₁⟩ := yields_command (d := d) (w := d.wire) hs hb
  obtain ⟨w₂, hmiddle, hs₂⟩ := yields_sendAll (h₁ hlistens) bytes
  obtain ⟨w₃, hafter, -, hs₃, -⟩ := yields_command hs₂ (hunlisten _)
  exact ⟨_, hbefore.bind (hmiddle.bind (hafter.bind (.pure _ _))), sameWork_onWire _ _, hs₃⟩

theorem yields_openChannel (hs : d.seenAtn = false) (hdevice : d.device ≤ 30) {n : UInt8} (hn : n < 16)
    (name : List UInt8) :
    ∃ e, Yields (openChannel d.device n name) d (taken name) e ∧
      SameWork ((name.foldl collect ((d.command (listenTo d.device)).command (openSecondary n))).command
        unlisten) e ∧
      e.seenAtn = false := by
  have hlisten := kind_listenTo hdevice
  have hopen := kind_openSecondary hn
  obtain ⟨journal, hj⟩ := command_openSecondary (d := d.command (listenTo d.device)) hn
  exact yields_tell d.device (openSecondary n) name hs
    ⟨not_turns (by rw [hlisten.1]; decide), not_turns (by rw [hopen.1]; decide), trivial⟩ (by rw [hj]; simp)

end Vic20.Serial
