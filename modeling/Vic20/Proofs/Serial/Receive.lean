import Vic20.Proofs.Drive.Work
import Vic20.Proofs.Serial.Runs

/-! Bytes received by the computer. The drive offers a byte once the computer has let go of data, and keeps
silent before the last. The computer then learns the byte and that it is the last; from a drive that has
nothing to send it learns that there is none. -/

namespace Vic20.Serial

open Drive

variable {σ : Type} [Storage σ] {d e f g : Drive σ} {w : Wire}

/-- The drive is about to offer a byte, and the computer holds data. -/
structure Talks (d : Drive σ) (w : Wire) : Prop where
  atn : w.atn = false
  seen : w.seenAtn = false
  data : w.data = true
  clkOut : w.clkOut = true
  link : w.link = .turnAroundReady
  elapsed : w.elapsed = 0
  talking : d.arbitration = .talking

omit [Storage σ] in
theorem Talks.steady (h : Talks d w) : Steady d w := ⟨h.seen.trans h.atn.symm, by simp [h.talking]⟩

/-- The wire once the drive has let go of the clock and the computer of data. -/
def offered (w : Wire) : Wire :=
  { w with clkOut := false, data := false, link := .waitReceiverReady, elapsed := 0 }

/-- The wire while the drive puts a byte on it, after `k` bits. -/
def putting (w : Wire) (v : UInt8) (last dataOut : Bool) (k : Nat) : Wire :=
  { w with
    clkOut := true, data := false, dataOut, bit := UInt8.ofNat k, byte := v, last
    link := if k = 8 then .waitDataAccepted else .sendDataInvalid, elapsed := 0 }

theorem yields_offer (h : Talks d w) :
    Yields (wait "talker ready" (!·.clkOut)) (d.onWire w) 100
      (d.onWire { w with clkOut := false, link := .waitReceiverReady, elapsed := 0 }) := by
  have hoffer := tick_offer (n := 10) (w := { w with elapsed := w.elapsed + 90 }) h.steady h.link
    (by simp [h.elapsed, turnAroundDelay])
  exact waitFor_bides 9 h.steady (by simp [Bides, h.link, h.elapsed, turnAroundDelay])
    (fun _ => by simp [h.clkOut]) hoffer rfl (by decide)

/-! ### Awaiting the talker -/

section Awaiting

variable {a : Option Bool} {turns waited : Nat} {last : Bool}

theorem awaitTalker_begun (h : d.clkOut = true) :
    Yields (awaitTalker (turns + 1) last waited) d (some last) d := by
  refine (yields_get d).bind ?_
  rw [if_pos h]
  exact .pure _ _

theorem awaitTalker_gone (h : d.clkOut = false) (hl : d.link = .idle) :
    Yields (awaitTalker (turns + 1) last waited) d none d := by
  refine (yields_get d).bind ?_
  rw [if_neg (by simp [h]), if_pos hl]
  exact .pure _ _

theorem awaitTalker_pass (h : d.clkOut = false) (hl : d.link ≠ .idle) (hwaited : waited ≤ 10000)
    (hlast : last = true ∨ waited ≤ 250) (ht : d.tick 10 = f)
    (hrun : Yields (awaitTalker turns last (waited + 10)) f a e) :
    Yields (awaitTalker (turns + 1) last waited) d a e := by
  have hanswers : (!last && decide (waited > 250)) = false := by
    rcases hlast with rfl | h
    · rfl
    · simp [h]
  rw [← Bool.or_false last, ← hanswers] at hrun
  refine (yields_get d).bind ?_
  rw [if_neg (by simp [h]), if_neg hl, if_neg (Nat.not_lt.2 hwaited)]
  simp only [hanswers] at hrun ⊢
  exact (yields_pass ht).bind hrun

theorem awaitTalker_answer (h : d.clkOut = false) (hl : d.link ≠ .idle) (hwaited : waited ≤ 10000)
    (hsilent : 250 < waited) (hanswer : (d.setData true).tick 80 = f) (hend : (f.setData false).tick 10 = g)
    (hrun : Yields (awaitTalker turns true (waited + 10)) g a e) :
    Yields (awaitTalker (turns + 1) false waited) d a e := by
  refine (yields_get d).bind ?_
  rw [if_neg (by simp [h]), if_neg hl, if_neg (Nat.not_lt.2 hwaited)]
  simp only [hsilent]
  exact (yields_lines _ _).bind ((yields_pass hanswer).bind ((yields_lines _ _).bind
    ((yields_pass hend).bind hrun)))

/-- The computer waits while the drive bides its time. -/
theorem awaitTalker_bides (turns n : Nat) (hs : Steady d w) (hc : w.clkOut = false) (hl : w.link ≠ .idle)
    (hb : Bides d { w with elapsed := w.elapsed + 10 * n }) (hwaited : waited + 10 * n ≤ 10010)
    (hlast : last = true ∨ waited + 10 * n ≤ 260)
    (hrun : Yields (awaitTalker turns last (waited + 10 * n))
      (d.onWire { w with elapsed := w.elapsed + 10 * n }) a e) :
    Yields (awaitTalker (turns + n) last waited) (d.onWire w) a e := by
  induction n generalizing w waited with
  | zero => exact hrun
  | succ n ih =>
    have hlen : w.elapsed + 10 * (n + 1) = w.elapsed + 10 + 10 * n := by omega
    have hsum : waited + 10 * (n + 1) = waited + 10 + 10 * n := by omega
    rw [hlen] at hb hrun
    rw [hsum] at hrun
    refine awaitTalker_pass hc hl (by omega) (hlast.imp_right (by omega)) (tick_bides hs (hb.mono (by omega)))
      ?_
    exact ih (w := { w with elapsed := w.elapsed + 10 }) hs hc hl hb (by omega) (hlast.imp_right (by omega))
      hrun

end Awaiting

/-- The drive has a byte to put on the wire, which is `last` or not. -/
def holding (w : Wire) (v : UInt8) (last : Bool) : Wire :=
  { offered w with byte := v, last, bit := 0, link := .readyToSend }

theorem awaitTalker_byte (hs : Steady d w) (he : d.empty = false) (v : UInt8) :
    Yields (awaitTalker 1001 false 10) (d.onWire (holding w v false)) (some false)
      (d.onWire (putting w v false w.dataOut 0)) := by
  have hgap : Bides d { holding w v false with elapsed := 60 } := by simp [Bides, holding, he, bitTime]
  have hbegin := tick_sendBegin (n := 10) (w := { holding w v false with elapsed := 60 }) hs rfl he rfl
    (by decide : bitTime < 70)
  refine awaitTalker_bides 995 6 (w := holding w v false) hs rfl (by simp [holding]) hgap (by decide)
    (.inr (by decide)) ?_
  exact awaitTalker_pass rfl (by simp [holding]) (by decide) (.inr (by decide)) hbegin (awaitTalker_begun rfl)

theorem awaitTalker_last (hs : Steady d w) (he : d.empty = false) (v : UInt8) :
    Yields (awaitTalker 1001 false 10) (d.onWire (holding w v true)) (some true)
      (d.onWire (putting w v true w.dataOut 0)) := by
  have hgap : Bides d { holding w v true with elapsed := 250 } := by simp [Bides, holding, offered, he]
  have hanswer := tick_gapAnswered (n := 80) (w := { holding w v true with data := true, elapsed := 250 }) hs
    rfl he rfl (by decide : eoiSignal < 330) rfl
  have hend := tick_gapEnd (n := 10) (w := { holding w v true with link := .waitEndOfEoiAck, elapsed := 0 }) hs
    rfl rfl
  refine awaitTalker_bides 976 25 (w := holding w v true) hs rfl (by simp [holding]) hgap (by decide)
    (.inr (by decide)) ?_
  exact awaitTalker_answer rfl (by simp [holding]) (by decide) (by decide) hanswer hend (awaitTalker_begun rfl)

/-- A drive with nothing to send goes idle, though the computer takes its silence for the gap before a last
byte. -/
theorem awaitTalker_none (hs : Steady d w) (he : d.empty = true) (v : UInt8) (last : Bool) :
    Yields (awaitTalker 1001 false 10) (d.onWire (holding w v last)) none
      (d.onWire { holding w v last with dataOut := false, link := .idle }) := by
  have hgap (n : Nat) (data : Bool) (hn : n ≤ emptyTimeout) :
      Bides d { holding w v last with data, elapsed := n } := by
    simpa [Bides, holding, he] using hn
  have hanswer := tick_bides (n := 80) (w := { holding w v last with data := true, elapsed := 250 }) hs
    (hgap 330 true (by decide))
  have hend := tick_bides (n := 10) (w := { holding w v last with elapsed := 330 }) hs
    (hgap 340 false (by decide))
  have hnothing := tick_nothing (n := 10) (w := { holding w v last with elapsed := 510 }) hs rfl he
    (by decide : emptyTimeout < 520)
  have hidle := tick_idle (n := 10) (w := { holding w v last with link := .goToIdle, elapsed := 50 }) hs rfl
    (by decide : idleSettle ≤ 60)
  -- 250 cycles until the computer answers, 90 for its answer, 180 until the drive gives up, and 60 until it
  -- is idle.
  refine awaitTalker_bides 976 25 (w := holding w v last) hs rfl (by simp [holding])
    (hgap 250 false (by decide)) (by decide) (.inr (by decide)) ?_
  refine awaitTalker_answer rfl (by simp [holding]) (by decide) (by decide) hanswer hend ?_
  refine awaitTalker_bides 958 17 (w := { holding w v last with elapsed := 340 }) hs rfl
    (by simp [holding]) (hgap 510 false (by decide)) (by decide) (.inl rfl) ?_
  refine awaitTalker_pass rfl (by simp [holding]) (by decide) (.inl rfl) hnothing ?_
  refine awaitTalker_bides 952 5 (w := { holding w v last with link := .goToIdle, elapsed := 0 }) hs
    rfl (by simp) (by simp [Bides, idleSettle]) (by decide) (.inl rfl) ?_
  exact awaitTalker_pass rfl (by simp) (by decide) (.inl rfl) hidle (awaitTalker_gone rfl rfl)

/-! ### Bits -/

/-- The wire while bit `k` is on it. -/
def shown (w : Wire) (v : UInt8) (last : Bool) (k : Nat) : Wire :=
  { putting w v last (v >>> UInt8.ofNat k &&& 1 == 0) k with
    clkOut := false, bit := UInt8.ofNat k + 1, link := .sendDataValid }

theorem yields_bitValid (hs : Steady d w) (v : UInt8) (last dataOut : Bool) {k : Nat} (hk : k < 8) :
    Yields (wait "bit valid" (!·.clkOut)) (d.onWire (putting w v last dataOut k)) 70
      (d.onWire (shown w v last k)) := by
  have hl : (putting w v last dataOut k).link = .sendDataInvalid := if_neg (by omega)
  have hb : Bides d { putting w v last dataOut k with elapsed := 60 } := by
    unfold Bides
    simp only [hl]
    decide
  have ht := tick_put (n := 10) (w := { putting w v last dataOut k with elapsed := 60 }) hs hl
    (by decide : bitTime < 70)
  exact waitFor_bides (w := putting w v last dataOut k) 6 hs hb (fun _ => rfl) ht rfl (by decide)

theorem yields_bitEnd (hs : Steady d w) (v : UInt8) (last : Bool) {k : Nat} (hk : k < 8) :
    ∃ dataOut, Yields (wait "bit end" (·.clkOut)) (d.onWire (shown w v last k)) 70
      (d.onWire (putting w v last dataOut (k + 1))) := by
  have hb : Bides d { shown w v last k with elapsed := 60 } := (by decide : 60 ≤ bitTime)
  have ht := tick_putEnd (n := 10) (w := { shown w v last k with elapsed := 60 }) hs rfl
    (by decide : bitTime < 70)
  by_cases h8 : k + 1 = 8
  · obtain rfl : k = 7 := by omega
    exact ⟨false, waitFor_bides (w := shown w v last 7) 6 hs hb (fun _ => rfl) ht rfl (by decide)⟩
  · have hne : UInt8.ofNat k + 1 ≠ 8 := ofNat_add_one k ▸ ofNat_ne_eight (by omega)
    have hnext : putting w v last (v >>> UInt8.ofNat k &&& 1 == 0) (k + 1) =
        { shown w v last k with clkOut := true, link := .sendDataInvalid, elapsed := 0 } := by
      unfold putting
      rw [if_neg h8, ← ofNat_add_one]
      rfl
    have ht := ht.trans (congrArg d.onWire (if_neg hne))
    refine ⟨v >>> UInt8.ofNat k &&& 1 == 0, ?_⟩
    rw [hnext]
    exact waitFor_bides (w := shown w v last k) 6 hs hb (fun _ => rfl) ht rfl (by decide)

/-- The bits from the `k`-th on complete the byte. -/
theorem yields_receiveBits (hs : Steady d w) (v : UInt8) (last dataOut : Bool) (n k : Nat) (hk : k + n = 8) :
    ∃ dataOut', Yields (receiveBits ((List.range' k n).map UInt8.ofNat) (lowBits v k))
      (d.onWire (putting w v last dataOut k)) v (d.onWire (putting w v last dataOut' 8)) := by
  induction n generalizing k dataOut with
  | zero =>
    obtain rfl : k = 8 := hk
    rw [lowBits_eight]
    exact ⟨dataOut, .pure _ _⟩
  | succ n ih =>
    obtain ⟨between, hend⟩ := yields_bitEnd hs v last (k := k) (by omega)
    obtain ⟨dataOut', hbits⟩ := ih between (k + 1) (by omega)
    refine ⟨dataOut', (yields_bitValid hs v last dataOut (by omega)).bind ((yields_get _).bind (hend.bind ?_))⟩
    have hnext : (if (d.onWire (shown w v last k)).dataOut = true then lowBits v k
        else lowBits v k ||| 1 <<< UInt8.ofNat k) = lowBits v (k + 1) := by
      rw [← lowBits_succ v (by omega)]
      change (if (v >>> UInt8.ofNat k &&& 1 == 0) = true then _ else _) = _
      split_ifs <;> simp
    rw [hnext]
    exact hbits

/-! ### Bytes -/

/-- The wire while the drive fetches. -/
def fetching (w : Wire) : Wire := { offered w with link := .readyToSend }

/-- The computer gets to know what has been fetched. -/
theorem awaitTalker_fetch {a : Option Bool} {v : UInt8} {last : Bool} (hs : Steady d w)
    (hf : (d.onWire (fetching w)).fetch = e.onWire { fetching w with byte := v, last })
    (hrun : Yields (awaitTalker 1001 false 10) (e.onWire (holding w v last)) a f) :
    Yields (awaitTalker 1002 false 0) (d.onWire (offered w)) a f := by
  have ht : (d.onWire (offered w)).tick 10 = { (d.onWire (fetching w)).fetch with bit := 0 } :=
    tick_fetch (w := offered w) hs rfl rfl
  rw [hf] at ht
  exact awaitTalker_pass rfl (by simp [offered]) (by decide) (.inr (by decide)) ht hrun

/-- Once the talker has begun, the byte follows. -/
theorem yields_received (hs : Steady d w) (v : UInt8) (last dataOut : Bool) :
    ∃ dataOut', Yields (do
        let v ← receiveBits [0, 1, 2, 3, 4, 5, 6, 7] 0
        lines (·.setData true)
        pass 10
        return some (v, last)) (d.onWire (putting w v last dataOut 0)) (some (v, last))
      (d.onWire { putting w v last dataOut' 8 with
        data := true, link := if last then .goToIdle else .turnAroundReady }) := by
  obtain ⟨dataOut', hbits⟩ := yields_receiveBits hs v last dataOut 8 0 rfl
  have hlist : (List.range' 0 8).map UInt8.ofNat = [0, 1, 2, 3, 4, 5, 6, 7] := by decide
  rw [hlist, lowBits_zero] at hbits
  have htaken := tick_taken (n := 10) (w := { putting w v last dataOut' 8 with data := true }) hs rfl rfl
  refine ⟨dataOut', ?_⟩
  exact hbits.bind ((yields_lines _ _).bind ((yields_pass htaken).bind (.pure _ _)))

theorem yields_receive {v : UInt8} {last : Bool} (h : Talks d w)
    (hf : ∀ w, (d.onWire w).fetch = e.onWire { w with byte := v, last }) (he : e.empty = false)
    (ha : e.arbitration = .talking) :
    ∃ w', Yields receive (d.onWire w) (some (v, last)) (e.onWire w') ∧ w'.seenAtn = false ∧
      (last = false → Talks e w') := by
  have hs : Steady e w := ⟨h.steady.1, by simp [ha]⟩
  have hawait : Yields (awaitTalker 1001 false 10) (e.onWire (holding w v last)) (some last)
      (e.onWire (putting w v last w.dataOut 0)) := by
    cases last with
    | false => exact awaitTalker_byte hs he v
    | true => exact awaitTalker_last hs he v
  obtain ⟨dataOut, hreceived⟩ := yields_received hs v last w.dataOut
  refine ⟨_, (yields_offer h).bind ((yields_lines _ _).bind
    ((awaitTalker_fetch h.steady (hf (fetching w)) hawait).bind hreceived)), h.seen, ?_⟩
  rintro rfl
  exact ⟨h.atn, h.seen, rfl, rfl, rfl, rfl, ha⟩

/-- A drive with nothing to send, whatever it has fetched, gives no byte. -/
theorem yields_receive_none (h : Talks d w)
    (hf : ∀ w, ∃ v last, (d.onWire w).fetch = e.onWire { w with byte := v, last }) (he : e.empty = true)
    (ha : e.arbitration = .talking) :
    ∃ w', Yields receive (d.onWire w) none (e.onWire w') ∧ w'.seenAtn = false := by
  have hs : Steady e w := ⟨h.steady.1, by simp [ha]⟩
  obtain ⟨v, last, hf⟩ := hf (fetching w)
  have hawait := awaitTalker_fetch h.steady hf (awaitTalker_none hs he v last)
  exact ⟨_, (yields_offer h).bind ((yields_lines _ _).bind (hawait.bind (.pure _ _))), h.seen⟩

end Vic20.Serial
