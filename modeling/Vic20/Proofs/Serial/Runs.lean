import Vic20.Proofs.Drive.Delivery
import Vic20.Serial.Computer

/-! Runs of the computer's end of the bus. A procedure that runs to its end gives a value and leaves a drive,
and runs follow one another as the procedures do. A wait is over with the tick that ends the drive's own
wait, so its length follows from how long the drive bides its time. -/

namespace Vic20.Serial

open Drive

variable {σ α β : Type} {d e f : Drive σ} {a : α} {b : β}

/-- The procedure runs to its end from `d`, gives `a` and leaves `e`. -/
def Yields (p : Bus σ α) (d : Drive σ) (a : α) (e : Drive σ) : Prop := p.run.run d = (.ok a, e)

theorem Yields.pure (a : α) (d : Drive σ) : Yields (Pure.pure a) d a d := rfl

theorem Yields.bind {p : Bus σ α} {q : α → Bus σ β} (h : Yields p d a e) (h' : Yields (q a) e b f) :
    Yields (p >>= q) d b f := by
  unfold Yields at *
  rw [ExceptT.run_bind, StateT.run_bind, h]
  exact h'

theorem Yields.cons {γ : Type} {p : γ → Bus σ α} {x : γ} {xs : List γ} {as : List α} (h : Yields (p x) d a e)
    (h' : Yields (xs.mapM p) e as f) : Yields ((x :: xs).mapM p) d (a :: as) f := by
  rw [List.mapM_cons]
  exact h.bind (h'.bind (.pure _ _))

theorem yields_lines (g : Drive σ → Drive σ) (d : Drive σ) : Yields (lines g) d () (g d) := rfl

theorem yields_get (d : Drive σ) : Yields (get : Bus σ (Drive σ)) d d d := rfl

variable [Storage σ]

theorem yields_pass {n : Nat} (h : d.tick n = e) : Yields (pass n) d () e := h ▸ rfl

section Waiting

variable {what : String} {shown : Drive σ → Bool} {turns waited : Nat}

theorem waitFor_shown (h : shown d = true) (hturns : 0 < turns) :
    Yields (waitFor what shown turns waited) d waited d := by
  obtain ⟨turns, rfl⟩ := Nat.exists_eq_add_of_lt hturns
  refine (yields_get d).bind ?_
  rw [if_pos h]
  exact .pure _ _

theorem waitFor_pass {n : Nat} (h : shown d = false)
    (hrun : Yields (waitFor what shown turns (waited + 10)) (d.tick 10) n e) :
    Yields (waitFor what shown (turns + 1) waited) d n e := by
  refine (yields_get d).bind ?_
  rw [if_neg (by simp [h])]
  exact (yields_pass rfl).bind hrun

/-- A wait while the drive bides its time. The tick after that shows what is waited for. -/
theorem waitFor_bides {w : Wire} (n : Nat) (hs : Steady d w)
    (hb : Bides d { w with elapsed := w.elapsed + 10 * n })
    (hq : ∀ m, shown (d.onWire { w with elapsed := m }) = false)
    (ht : (d.onWire { w with elapsed := w.elapsed + 10 * n }).tick 10 = e) (he : shown e = true)
    (hturns : n + 2 ≤ turns) :
    Yields (waitFor what shown turns waited) (d.onWire w) (waited + 10 * (n + 1)) e := by
  induction n generalizing w turns waited with
  | zero =>
    obtain ⟨turns, rfl⟩ : ∃ k, turns = k + 1 := ⟨turns - 1, by omega⟩
    refine waitFor_pass (hq w.elapsed) ?_
    rw [show (d.onWire w).tick 10 = e from ht]
    exact waitFor_shown he (by omega)
  | succ n ih =>
    obtain ⟨turns, rfl⟩ : ∃ k, turns = k + 1 := ⟨turns - 1, by omega⟩
    have hlen : w.elapsed + 10 * (n + 1) = w.elapsed + 10 + 10 * n := by omega
    rw [hlen] at hb ht
    refine waitFor_pass (hq w.elapsed) ?_
    rw [tick_bides hs (hb.mono (by omega)),
      show waited + 10 * (n + 1 + 1) = waited + 10 + 10 * (n + 1) by omega]
    exact ih (w := { w with elapsed := w.elapsed + 10 }) hs hb hq ht (by omega)

end Waiting

/-! ### Bits -/

/-- The pace at which the computer sends bits. -/
def bitPace : BitPace := ⟨⟨20, [], by decide⟩, ⟨20, [], by decide⟩⟩

/-- To send bits is to have the drive follow their signals. -/
theorem yields_sendBits (v : UInt8) (n : Nat) (d : Drive σ) :
    Yields (sendBits v n) d () (d.watch (bitsSignals v (List.replicate n bitPace))).2 := by
  induction n generalizing v d with
  | zero => exact .pure _ _
  | succ n ih => exact ih (v >>> 1) _

/-- All bits of a byte that has begun. -/
theorem sendBits_byte {w : Wire} (v : UInt8) (hs : Steady d w) (hl : w.link = .waitDataValid)
    (hbit : w.bit = 0) (hbyte : w.byte = 0) :
    Yields (sendBits v 8) (d.onWire w) () (d.onWire (w.whole v)) := by
  have h := watch_bits v bitPace (List.replicate 7 bitPace) 0 (by simp) hs hl hbit
    (hbyte.trans (lowBits_zero v).symm)
  have h0 : v >>> UInt8.ofNat 0 = v := UInt8.shiftRight_zero
  rw [h0] at h
  have hrun := yields_sendBits v 8 (d.onWire w)
  rw [List.replicate_succ, h] at hrun
  exact hrun

end Vic20.Serial
