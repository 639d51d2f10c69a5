import Vic20.Proofs.Video.Settled

/-! What a reset leaves behind. The right edge, the height of the character area, the border and the background
come through it, and as a write that changes nothing is skipped, even writing the reset values does not bring them
into line. A register that changes does. From then on the chip cannot be told from a new one but by its picture,
and by this no more once a line and a frame have been drawn (`reset_renews`). -/

namespace Vic20.Vic

open Video

variable {v w : Vic}

/-! ### Settings coming into line -/

/-- A write that changes one of the registers. -/
def Operation.Changes (registers : List Nat) (vic : Vic) : Operation → Prop
  | .write register v => register.toNat % 16 ∈ registers ∧ vic.stored register ≠ v
  | _ => False

/-- One of the registers changes in a run. -/
def Rewrites (registers : List Nat) (vic : Vic) : List Operation → Prop
  | [] => False
  | o :: os => o.Changes registers vic ∨ (vic.perform o).2.Rewrites registers os

/-- Border and background, which are set together. -/
def screen (vic : Vic) : Colour × Colour := (vic.ink.border, vic.ink.background)

/-- Chips that are twins and have the same colours, but for the right edge, the height of the area and the
screen. Of these each is the same in both under a condition of its own. -/
structure Agrees (edge height colours : Prop) (v w : Vic) : Prop where
  twin : Twin v w
  auxiliary : v.ink.auxiliary = w.ink.auxiliary
  invert : v.ink.invert = w.ink.invert
  right : edge → v.geometry.right = w.geometry.right
  areaHeight : height → v.geometry.areaHeight = w.geometry.areaHeight
  screen : colours → v.screen = w.screen

variable {edge height colours edge' height' colours' : Prop}

theorem Agrees.mono (h : Agrees edge height colours v w) (hedge : edge' → edge) (hheight : height' → height)
    (hcolours : colours' → colours) : Agrees edge' height' colours' v w :=
  ⟨h.twin, h.auxiliary, h.invert, h.right ∘ hedge, h.areaHeight ∘ hheight, h.screen ∘ hcolours⟩

theorem Agrees.or_of_not {p q r : Prop} (h : Agrees edge height colours v w) (hp : ¬p) (hq : ¬q) (hr : ¬r) :
    Agrees (edge ∨ p) (height ∨ q) (colours ∨ r) v w :=
  h.mono (·.resolve_right hp) (·.resolve_right hq) (·.resolve_right hr)

theorem Agrees.settings (h : Agrees edge height colours v w) (hedge : edge) (hheight : height)
    (hcolours : colours) : v.settings = w.settings := by
  refine settings_ext h.twin.registers ?_ ?_ h.twin.beam h.twin.frameDone
  · have hplacement := h.twin.geometry
    have hright := h.right hedge
    have hareaHeight := h.areaHeight hheight
    revert hplacement hright hareaHeight
    cases v.geometry
    cases w.geometry
    simp only [placement, Geometry.mk.injEq]
    grind
  · have hauxiliary := h.auxiliary
    have hinvert := h.invert
    obtain ⟨hborder, hbackground⟩ := Prod.mk.inj (h.screen hcolours)
    revert hauxiliary hinvert hborder hbackground
    cases v.ink
    cases w.ink
    simp only [Ink.mk.injEq]
    grind

theorem derive_right (vic : Vic) {register : Nat} (h : register ∉ [0x0, 0x2]) (x : UInt8) :
    (vic.derive register x).geometry.right = vic.geometry.right := by
  unfold derive
  split <;> first | rfl | exact absurd (by decide) h

theorem derive_areaHeight (vic : Vic) {register : Nat} (h : register ∉ [0x3]) (x : UInt8) :
    (vic.derive register x).geometry.areaHeight = vic.geometry.areaHeight := by
  unfold derive
  split <;> first | rfl | exact absurd (by decide) h

theorem derive_screen (vic : Vic) {register : Nat} (h : register ∉ [0xF]) (x : UInt8) :
    (vic.derive register x).screen = vic.screen := by
  unfold derive
  split <;> first | rfl | exact absurd (by decide) h

/-- The right edge follows from the left one and the columns when one of these is set. -/
theorem Twin.derive_right (h : Twin v w) {register : Nat} (hr : register ∈ [0x0, 0x2]) (x : UInt8) :
    (v.derive register x).geometry.right = (w.derive register x).geometry.right := by
  have hcolumns : v.geometry.columns = w.geometry.columns := (congrArg Geometry.columns h.geometry :)
  have hleft : v.geometry.left = w.geometry.left := (congrArg Geometry.left h.geometry :)
  obtain rfl | rfl : register = 0x0 ∨ register = 0x2 := by simpa using hr
  · exact congrArg (fun columns : Nat => _ + (columns : Int) * charWidth) hcolumns
  · exact congrArg (· + _) hleft

/-- The register that a setting comes from brings it into line. -/
theorem Agrees.derive (h : Agrees edge height colours v w) (register : Nat) (x : UInt8) :
    Agrees (edge ∨ register ∈ [0x0, 0x2]) (height ∨ register ∈ [0x3]) (colours ∨ register ∈ [0xF])
      (v.derive register x) (w.derive register x) where
  twin := h.twin.derive register x
  auxiliary := by
    unfold Vic.derive
    split <;> first | exact h.auxiliary | rfl
  invert := by
    unfold Vic.derive
    split <;> first | exact h.invert | rfl
  right hedge := by
    by_cases hr : register ∈ [0x0, 0x2]
    · exact h.twin.derive_right hr x
    · rw [derive_right v hr, derive_right w hr]
      exact h.right (hedge.resolve_right hr)
  areaHeight hheight := by
    by_cases hr : register ∈ [0x3]
    · obtain rfl := List.mem_singleton.mp hr
      rfl
    · rw [derive_areaHeight v hr, derive_areaHeight w hr]
      exact h.areaHeight (hheight.resolve_right hr)
  screen hcolours := by
    by_cases hr : register ∈ [0xF]
    · obtain rfl := List.mem_singleton.mp hr
      rfl
    · rw [derive_screen v hr, derive_screen w hr]
      exact h.screen (hcolours.resolve_right hr)

theorem Agrees.write (h : Agrees edge height colours v w) (register x : UInt8) :
    let o := Operation.write register x
    Agrees (edge ∨ o.Changes [0x0, 0x2] w) (height ∨ o.Changes [0x3] w) (colours ∨ o.Changes [0xF] w)
      (v.write register x) (w.write register x) := by
  have hstored := h.twin.stored register
  unfold Vic.write
  rw [hstored]
  split_ifs with hsame
  · have hkept (registers : List Nat) : ¬(Operation.write register x).Changes registers w :=
      fun hc => hc.2 (by simpa using hsame)
    exact h.or_of_not (hkept _) (hkept _) (hkept _)
  · have hset : Agrees edge height colours
        { v with registers := v.registers.set (register.toNat % 16) x (register_lt register) }
        { w with registers := w.registers.set (register.toNat % 16) x (register_lt register) } := by
      refine ⟨⟨?_, h.twin.beam, h.twin.frameDone, h.twin.geometry⟩, h.auxiliary, h.invert, h.right, h.areaHeight,
        h.screen⟩
      exact congrArg (·.set _ x (register_lt register)) h.twin.registers
    exact (hset.derive (register.toNat % 16) x).mono (Or.imp_right And.left) (Or.imp_right And.left)
      (Or.imp_right And.left)

theorem tick_ink {μ : Type} [VideoMemory μ] (vic : Vic) (memory : μ) (cycles : Nat) :
    (vic.tick memory cycles).ink = vic.ink := by
  induction cycles with
  | zero => rfl
  | succ k ih =>
    rw [tick_succ, cycled]
    exact (congrArg Vic.ink (draw_settings memory _) :).trans ((advance_ink _).trans ih)

theorem tick_screen {μ : Type} [VideoMemory μ] (vic : Vic) (memory : μ) (cycles : Nat) :
    (vic.tick memory cycles).screen = vic.screen := by
  rw [screen, tick_ink, screen]

theorem tick_registers {μ : Type} [VideoMemory μ] (vic : Vic) (memory : μ) (cycles : Nat) :
    (vic.tick memory cycles).registers = vic.registers := by
  induction cycles with
  | zero => rfl
  | succ k ih => rw [tick_succ, cycled_registers, ih]

theorem Agrees.tick {μ : Type} [VideoMemory μ] (h : Agrees edge height colours v w) (memory : μ) (cycles : Nat) :
    Agrees edge height colours (v.tick memory cycles) (w.tick memory cycles) := by
  refine ⟨h.twin.tick memory cycles, ?_, ?_, ?_, ?_, ?_⟩
  · rw [tick_ink, tick_ink, h.auxiliary]
  · rw [tick_ink, tick_ink, h.invert]
  · rw [tick_geometry, tick_geometry]
    exact h.right
  · rw [tick_geometry, tick_geometry]
    exact h.areaHeight
  · rw [tick_screen, tick_screen]
    exact h.screen

/-- Whatever is done, the answers are the same, and what has been brought into line stays so. -/
theorem Agrees.perform (h : Agrees edge height colours v w) (o : Operation) :
    (v.perform o).1 = (w.perform o).1 ∧
      Agrees (edge ∨ o.Changes [0x0, 0x2] w) (height ∨ o.Changes [0x3] w) (colours ∨ o.Changes [0xF] w)
        (v.perform o).2 (w.perform o).2 := by
  cases o with
  | write register x => exact ⟨rfl, h.write register x⟩
  | read register =>
    exact ⟨congrArg Answer.byte (h.twin.read register), h.or_of_not id id id⟩
  | tick memory cycles =>
    exact ⟨rfl, (h.tick memory cycles).or_of_not id id id⟩
  | takeFrameDone =>
    have hdone := h.twin.takeFrameDone
    have hagrees : Agrees edge height colours v.takeFrameDone.2 w.takeFrameDone.2 :=
      ⟨hdone.state, h.auxiliary, h.invert, h.right, h.areaHeight, h.screen⟩
    exact ⟨congrArg Answer.flag hdone.value, hagrees.or_of_not id id id⟩

theorem Agrees.run (h : Agrees edge height colours v w) (os : List Operation) :
    (v.run os).1 = (w.run os).1 ∧
      Agrees (edge ∨ w.Rewrites [0x0, 0x2] os) (height ∨ w.Rewrites [0x3] os) (colours ∨ w.Rewrites [0xF] os)
        (v.run os).2 (w.run os).2 := by
  induction os generalizing v w edge height colours with
  | nil => exact ⟨rfl, h.or_of_not id id id⟩
  | cons o os ih =>
    obtain ⟨hanswer, hagrees⟩ := h.perform o
    obtain ⟨hanswers, hall⟩ := ih hagrees
    exact ⟨congrArg₂ List.cons hanswer hanswers, hall.mono or_assoc.mpr or_assoc.mpr or_assoc.mpr⟩

/-! ### Settings left alone -/

/-- What only the writes to some registers change. -/
structure SetBy {α : Type} (registers : List Nat) (f : Vic → α) : Prop where
  derive (vic : Vic) {register : Nat} (h : register ∉ registers) (x : UInt8) : f (vic.derive register x) = f vic
  store (vic : Vic) (stored : Vector UInt8 16) : f { vic with registers := stored } = f vic
  tick {μ : Type} [VideoMemory μ] (vic : Vic) (memory : μ) (cycles : Nat) : f (vic.tick memory cycles) = f vic
  takeFrameDone (vic : Vic) : f vic.takeFrameDone.2 = f vic

theorem setBy_right : SetBy [0x0, 0x2] (·.geometry.right) :=
  ⟨derive_right, fun _ _ => rfl, fun vic memory cycles => by rw [tick_geometry], fun _ => rfl⟩

theorem setBy_areaHeight : SetBy [0x3] (·.geometry.areaHeight) :=
  ⟨derive_areaHeight, fun _ _ => rfl, fun vic memory cycles => by rw [tick_geometry], fun _ => rfl⟩

theorem setBy_screen : SetBy [0xF] screen :=
  ⟨derive_screen, fun _ _ => rfl, tick_screen, fun _ => rfl⟩

section SetBy

variable {α : Type} {registers : List Nat} {f : Vic → α} (hf : SetBy registers f)

include hf

theorem SetBy.perform {o : Operation} (h : ¬o.Changes registers v) : f (v.perform o).2 = f v := by
  cases o with
  | write register x =>
    change f (v.write register x) = f v
    unfold Vic.write
    split_ifs with hsame
    · rfl
    · have hother : register.toNat % 16 ∉ registers := fun hr => h ⟨hr, by simpa using hsame⟩
      exact (hf.derive _ hother x).trans (hf.store v _)
  | read register => rfl
  | tick memory cycles => exact hf.tick v memory cycles
  | takeFrameDone => exact hf.takeFrameDone v

theorem SetBy.run {os : List Operation} (h : ¬v.Rewrites registers os) : f (v.run os).2 = f v := by
  induction os generalizing v with
  | nil => rfl
  | cons o os ih =>
    obtain ⟨hfirst, hrest⟩ := not_or.mp h
    exact (ih hrest).trans (hf.perform hfirst)

end SetBy

/-- A register changes in both of two twins or in none. -/
theorem Agrees.rewrites (h : Agrees edge height colours v w) (registers : List Nat) (os : List Operation) :
    v.Rewrites registers os ↔ w.Rewrites registers os := by
  induction os generalizing v w edge height colours with
  | nil => exact Iff.rfl
  | cons o os ih =>
    have hfirst : o.Changes registers v ↔ o.Changes registers w := by
      cases o with
      | write register x =>
        simp only [Operation.Changes, h.twin.stored]
      | read | tick | takeFrameDone => exact Iff.rfl
    exact or_congr hfirst (ih (h.perform o).2)

/-! ### Reset -/

theorem reset_new : Vic.new.reset = .new := rfl

/-- What came through a reset is in line with a new chip: it was as there, or its registers have changed. -/
structure Renewed (v : Vic) (os : List Operation) : Prop where
  right : v.geometry.right = 0 ∨ Vic.new.Rewrites [0x0, 0x2] os
  areaHeight : v.geometry.areaHeight = 0 ∨ Vic.new.Rewrites [0x3] os
  screen : v.screen = (black, black) ∨ Vic.new.Rewrites [0xF] os

/-- The chip after a reset next to a new one. -/
theorem reset_agrees (v : Vic) :
    Agrees (v.geometry.right = 0) (v.geometry.areaHeight = 0) (v.screen = (black, black)) v.reset .new where
  twin := ⟨rfl, rfl, rfl, rfl⟩
  auxiliary := rfl
  invert := rfl
  right h := h
  areaHeight h := h
  screen h := h

theorem Renewed.settings {os : List Operation} (h : Renewed v os) :
    (v.reset.run os).2.settings = (Vic.new.run os).2.settings :=
  ((reset_agrees v).run os).2.settings h.right h.areaHeight h.screen

/-- What is not renewed stays as it was before the reset. -/
theorem stays {α : Type} {registers : List Nat} {f : Vic → α} (hf : SetBy registers f) {os : List Operation}
    (hsame : f (v.reset.run os).2 = f (Vic.new.run os).2) (hn : ¬Vic.new.Rewrites registers os) :
    f v.reset = f .new := by
  have hold := hf.run (mt ((reset_agrees v).rewrites registers os).mp hn)
  exact hold.symm.trans (hsame.trans (hf.run hn))

theorem renewed_of_same {os : List Operation}
    (hgeometry : (v.reset.run os).2.geometry = (Vic.new.run os).2.geometry)
    (hink : (v.reset.run os).2.ink = (Vic.new.run os).2.ink) : Renewed v os where
  right := or_iff_not_imp_right.mpr (stays setBy_right (congrArg Geometry.right hgeometry))
  areaHeight := or_iff_not_imp_right.mpr (stays setBy_areaHeight (congrArg Geometry.areaHeight hgeometry))
  screen := or_iff_not_imp_right.mpr
    (stays setBy_screen (congrArg (fun i : Ink => (i.border, i.background)) hink))

/-- After a reset a chip answers as a new one does, and its registers, beam and addresses are the same. Its
geometry and colours are the same just when they have been renewed. The picture is the same a line and a frame
after that, or after a frame if nothing had to be renewed. -/
theorem reset_renews (v : Vic) (os ps : List Operation) :
    let old := v.reset.run os
    let fresh := Vic.new.run os
    (old.1 = fresh.1 ∧ Twin old.2 fresh.2 ∧ old.2.ink.auxiliary = fresh.2.ink.auxiliary ∧
      old.2.ink.invert = fresh.2.ink.invert) ∧
    (old.2.geometry = fresh.2.geometry ∧ old.2.ink = fresh.2.ink ↔ Renewed v os) ∧
    (Renewed v os → cyclesPerLine + cyclesPerFrame ≤ cyclesOf ps →
      (old.2.run ps).2.picture = (fresh.2.run ps).2.picture) ∧
    (Renewed v [] → cyclesPerFrame ≤ cyclesOf os → old.2.picture = fresh.2.picture) := by
  intro old fresh
  obtain ⟨hanswers, hagrees⟩ := (reset_agrees v).run os
  refine ⟨⟨hanswers, hagrees.twin, hagrees.auxiliary, hagrees.invert⟩, ⟨fun hsame => ?_, fun hrenewed => ?_⟩,
    fun hrenewed hcycles => ?_, fun hrenewed hcycles => ?_⟩
  · exact renewed_of_same hsame.1 hsame.2
  · exact ⟨(congrArg Vic.geometry hrenewed.settings :), (congrArg Vic.ink hrenewed.settings :)⟩
  · exact ((settled_zero hrenewed.settings).run ps).picture (by omega)
  · have hstart : Settled cyclesPerLine v.reset .new := settled_start hrenewed.settings rfl
    exact (hstart.run os).picture (by omega)

/-- A chip that has shown a coloured screen. -/
def coloured : Vic := Vic.new.write 0xF 0x1B

/-- Writing the reset value is skipped, and so the old border is drawn in the whole next frame. -/
theorem reset_keeps_border :
    let os : List Operation := [.write 0xF 0x00, .tick stripes cyclesPerFrame]
    Reachable coloured ∧ (coloured.reset.run os).2.ink.border ≠ (Vic.new.run os).2.ink.border ∧
      (coloured.reset.run os).2.pixel 0 0 ≠ (Vic.new.run os).2.pixel 0 0 := by
  intro os
  have hpixel (start : Vic) (he : Edges start.geometry) (hs : start.beam = .start) :
      (start.tick stripes cyclesPerFrame).pixel 0 0 = picturePixel start.geometry start.ink stripes 0 0 := by
    obtain ⟨hposition, hshows⟩ := shows_tick he hs stripes (n := 22151) (by decide)
    rw [show cyclesPerFrame = 22151 + 1 from rfl, tick_succ, pixel, cycled_last (by rw [hposition]; rfl)]
    exact hshows.drawn 0 (by decide) 0 (by rw [hposition]; decide)
  have hrun (start : Vic) (hskipped : start.write 0xF 0x00 = start) (n : Nat) :
      (start.run [.write 0xF 0x00, .tick stripes n]).2 = start.tick stripes n :=
    congrArg (·.tick stripes n) hskipped
  have hold : (coloured.reset.run os).2 = coloured.reset.tick stripes cyclesPerFrame := hrun _ rfl _
  have hnew : (Vic.new.run os).2 = Vic.new.tick stripes cyclesPerFrame := hrun _ rfl _
  have hcoloured : Reachable coloured := Reachable.new.write 0xF 0x1B
  rw [hold, hnew, tick_ink, tick_ink, hpixel _ hcoloured.reset.edges rfl, hpixel _ Reachable.new.edges rfl]
  exact ⟨hcoloured, by decide, by decide⟩

/-- With its register the screen is renewed. -/
theorem reset_renews_coloured :
    let os : List Operation := [.tick stripes 3000, .write 0xF 0x2E]
    let ps : List Operation := [.tick stripes 30000]
    Renewed coloured os ∧
      ((coloured.reset.run os).2.run ps).2.picture = ((Vic.new.run os).2.run ps).2.picture := by
  intro os ps
  have hrenewed : Renewed coloured os := by
    refine ⟨.inl rfl, .inl rfl, .inr (.inr (.inl ⟨by decide, ?_⟩))⟩
    have hregisters : (Vic.new.tick stripes 3000).registers = Vic.new.registers := tick_registers _ _ _
    change (Vic.new.tick stripes 3000).registers.get _ ≠ 0x2E
    rw [hregisters]
    decide
  exact ⟨hrenewed, (reset_renews coloured os ps).2.2.1 hrenewed (by decide)⟩

end Vic20.Vic
