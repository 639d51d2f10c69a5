import Vic20.Proofs.Machine.Twin
import Vic20.Proofs.Video.Picture

/-! Video chips with the same settings but different pictures. They begin each line alike, whatever the last one
left in them, and from then on draw the same. So what differs is drawn over, and nothing of it is left once the
beam has finished its line and gone round a frame (`Settled.picture`). -/

namespace Vic20.Vic

open Video

/-! ### Operations -/

/-- What is done to a video chip between resets. -/
inductive Operation where
  | write (register v : UInt8)
  | read (register : UInt8)
  | tick {μ : Type} [VideoMemory μ] (memory : μ) (cycles : Nat)
  | takeFrameDone

inductive Answer where
  | none
  | byte (v : UInt8)
  | flag (on : Bool)
  deriving DecidableEq

def perform (vic : Vic) : Operation → Answer × Vic
  | .write register v => (.none, vic.write register v)
  | .read register => (.byte (vic.read register), vic)
  | @Operation.tick _ _ memory cycles => (.none, vic.tick memory cycles)
  | .takeFrameDone => (.flag vic.takeFrameDone.1, vic.takeFrameDone.2)

/-- What operations answer, and the chip after them. -/
def run (vic : Vic) : List Operation → List Answer × Vic
  | [] => ([], vic)
  | o :: os => ((vic.perform o).1 :: ((vic.perform o).2.run os).1, ((vic.perform o).2.run os).2)

/-- The cycles that pass. -/
def Operation.cycles : Operation → Nat
  | @Operation.tick _ _ _ cycles => cycles
  | _ => 0

variable {v w : Vic} {n : Nat}

/-! ### Chips with the same settings -/

/-- All of a chip but the text line and the picture. -/
def settings (vic : Vic) : Vic := { vic with text := {}, picture := Vector.replicate _ black }

theorem settings_ext (hregisters : v.registers = w.registers) (hgeometry : v.geometry = w.geometry)
    (hink : v.ink = w.ink) (hbeam : v.beam = w.beam) (hdone : v.frameDone = w.frameDone) :
    v.settings = w.settings := by
  unfold settings
  rw [hregisters, hgeometry, hink, hbeam, hdone]

/-- A write reaches neither the text line nor the picture. -/
theorem write_with (text : TextLine) (picture : Picture) (register x : UInt8) :
    ({ v with text, picture } : Vic).write register x = { v.write register x with text, picture } := by
  have hstored : ({ v with text, picture } : Vic).stored register = v.stored register := rfl
  unfold write
  rw [hstored]
  split_ifs
  · rfl
  · unfold derive
    dsimp only
    split <;> rfl

theorem write_settings (register x : UInt8) : (v.write register x).settings = v.settings.write register x :=
  (write_with _ _ register x).symm

theorem write_text (register x : UInt8) : (v.write register x).text = v.text :=
  (congrArg Vic.text (write_with (v := v) v.text v.picture register x) :)

theorem write_picture (register x : UInt8) : (v.write register x).picture = v.picture :=
  (congrArg Vic.picture (write_with (v := v) v.text v.picture register x) :)

theorem write_beam (register x : UInt8) : (v.write register x).beam = v.beam := by
  unfold write derive
  dsimp only
  split_ifs
  · rfl
  · split <;> rfl

/-! ### The text line -/

/-- Text lines that draw the same: both border, or with the same cell, or about to fetch the same. -/
structure TextAlike (s t : TextLine) : Prop where
  border : s.border = t.border
  place : s.border = false → s.address = t.address ∧ s.column = t.column ∧ s.cellLine = t.cellLine
  fetch : s.border = false → s.fetch = t.fetch
  cell : s.border = false → s.fetch = false → s.high = t.high ∧ s.low = t.low

/-- Lines that are about to fetch the same cell. -/
theorem textAlike_fetching {s t : TextLine} (hborder : s.border = t.border) (hs : s.fetch = true)
    (ht : t.fetch = true)
    (hplace : s.border = false → s.address = t.address ∧ s.column = t.column ∧ s.cellLine = t.cellLine) :
    TextAlike s t :=
  ⟨hborder, hplace, fun _ => hs.trans ht.symm, fun _ hfetch => absurd (hs.symm.trans hfetch) (by decide)⟩

/-- A line begins the same whatever the last one left. -/
theorem textAlike_startLine (g : Geometry) (s t : TextLine) (y : Nat) :
    TextAlike (startLine g s y) (startLine g t y) := by
  unfold startLine
  split_ifs
  · have hborder : true ≠ false := by decide
    exact ⟨rfl, (absurd · hborder), (absurd · hborder), (absurd · hborder)⟩
  all_goals exact textAlike_fetching rfl rfl rfl fun _ => ⟨rfl, rfl, rfl⟩

section Drawing

variable {μ : Type} [VideoMemory μ] (memory : μ)

/-- The four pixels under the beam. -/
def groupUnder (vic : Vic) : Group :=
  if vic.drawsBorder then ⟨vic.ink.border, vic.ink.border, vic.ink.border, vic.ink.border⟩
  else if vic.inFirstHalf then (vic.filled memory).high else (vic.filled memory).low

/-- The text line behind them. -/
def textBehind (vic : Vic) : TextLine :=
  if vic.drawsBorder then vic.text
  else if vic.inFirstHalf then vic.filled memory
  else { vic.filled memory with column := (vic.filled memory).column + 1, fetch := true }

theorem drawGroup_eq (vic : Vic) :
    vic.drawGroup memory = ({ vic with text := vic.textBehind memory } : Vic).plot (vic.groupUnder memory) := by
  unfold groupUnder textBehind
  cases hb : vic.drawsBorder with
  | true => exact if_pos hb
  | false =>
    rw [drawGroup_inside vic memory hb]
    simp only [Bool.false_eq_true, if_false]
    split_ifs <;> rfl

variable (hsettings : v.settings = w.settings) (halike : TextAlike v.text w.text)

include hsettings

theorem inFirstHalf_alike : v.inFirstHalf = w.inFirstHalf := by
  have hgeometry : v.geometry = w.geometry := (congrArg Vic.geometry hsettings :)
  have hbeam : v.beam = w.beam := (congrArg Vic.beam hsettings :)
  rw [inFirstHalf, hgeometry, hbeam, inFirstHalf]

include halike

theorem drawsBorder_alike : v.drawsBorder = w.drawsBorder := by
  have hgeometry : v.geometry = w.geometry := (congrArg Vic.geometry hsettings :)
  have hbeam : v.beam = w.beam := (congrArg Vic.beam hsettings :)
  rw [drawsBorder, hgeometry, hbeam, halike.border, drawsBorder]

/-- Inside the area both have the same cell. -/
theorem filled_alike (hborder : v.text.border = false) :
    TextAlike (v.filled memory) (w.filled memory) ∧ (v.filled memory).high = (w.filled memory).high ∧
      (v.filled memory).low = (w.filled memory).low := by
  have hgeometry : v.geometry = w.geometry := (congrArg Vic.geometry hsettings :)
  have hink : v.ink = w.ink := (congrArg Vic.ink hsettings :)
  obtain ⟨haddress, hcolumn, hline⟩ := halike.place hborder
  have hmatrix : v.matrixAddress = w.matrixAddress := by rw [matrixAddress, haddress, hcolumn, matrixAddress]
  have hglyph : v.glyphAddress = w.glyphAddress := by
    funext code
    rw [glyphAddress, hgeometry, hline, glyphAddress]
  have hcell : v.cell memory = w.cell memory := by
    unfold Vic.cell colourAddress
    rw [hmatrix, hglyph, hink]
  unfold filled
  rw [← halike.fetch hborder]
  split_ifs with hfetch
  · rw [hcell]
    exact ⟨⟨halike.border, fun _ => ⟨haddress, hcolumn, hline⟩, fun _ => rfl, fun _ _ => ⟨rfl, rfl⟩⟩, rfl, rfl⟩
  · exact ⟨halike, halike.cell hborder (by simpa using hfetch)⟩

theorem groupUnder_alike : v.groupUnder memory = w.groupUnder memory := by
  have hink : v.ink = w.ink := (congrArg Vic.ink hsettings :)
  unfold groupUnder
  rw [← drawsBorder_alike hsettings halike, ← inFirstHalf_alike hsettings, hink]
  split_ifs with hb
  · rfl
  all_goals
    have hborder : v.text.border = false := by
      simp only [drawsBorder, Bool.or_eq_true, not_or, Bool.not_eq_true] at hb
      exact hb.1.1
    obtain ⟨-, hhigh, hlow⟩ := filled_alike memory hsettings halike hborder
    assumption

theorem textBehind_alike : TextAlike (v.textBehind memory) (w.textBehind memory) := by
  unfold textBehind
  rw [← drawsBorder_alike hsettings halike, ← inFirstHalf_alike hsettings]
  split_ifs with hb
  · exact halike
  all_goals
    have hborder : v.text.border = false := by
      simp only [drawsBorder, Bool.or_eq_true, not_or, Bool.not_eq_true] at hb
      exact hb.1.1
    obtain ⟨hfilled, -⟩ := filled_alike memory hsettings halike hborder
  · exact hfilled
  · refine textAlike_fetching hfilled.border rfl rfl fun h => ?_
    obtain ⟨haddress, hcolumn, hline⟩ := hfilled.place h
    exact ⟨haddress, by rw [hcolumn], hline⟩

end Drawing

/-! ### Pictures drawn anew -/

/-- Cycles since a pixel was drawn, if the beam has come round. -/
def age (b : Beam) (x y : Nat) : Nat := (b.position + cyclesPerFrame - drawnAt x y) % cyclesPerFrame

/-- Chips that have had the same settings for `n` cycles. The text line under the beam is the same in both if it
has begun since then, and so is what has been drawn since the next one. -/
structure Settled (n : Nat) (v w : Vic) : Prop where
  settings : v.settings = w.settings
  text : v.beam.inPictureLine → v.beam.cycle.val < n → TextAlike v.text w.text
  drawn : ∀ x < pictureWidth, ∀ y < pictureHeight, age v.beam x y + cyclesPerLine ≤ n → v.pixel x y = w.pixel x y

theorem settled_zero (h : v.settings = w.settings) : Settled 0 v w := by
  refine ⟨h, fun _ hn => absurd hn (Nat.not_lt_zero _), fun x _ y _ hage => ?_⟩
  have hline : cyclesPerLine = 71 := rfl
  omega

/-- No line of the picture has begun at the start of a frame. -/
theorem settled_start (h : v.settings = w.settings) (hstart : v.beam = .start) : Settled cyclesPerLine v w := by
  refine ⟨h, fun hin _ => ?_, fun x hx y hy hage => ?_⟩
  · rw [hstart] at hin
    exact absurd hin (by decide)
  · have hat : drawnAt x y = 71 * (y + 28) + (x + 64) / 4 := rfl
    have hframe : cyclesPerFrame = 22152 := rfl
    have hposition : Beam.start.position = 0 := rfl
    have hwidth := Beam.pictureWidth_eq
    have hheight := Beam.pictureHeight_eq
    rw [hstart, age, hat, hframe, hposition] at hage
    omega

/-- After a line and a frame nothing is left of what differed. -/
theorem Settled.picture (h : Settled n v w) (hn : cyclesPerLine + cyclesPerFrame ≤ n) : v.picture = w.picture := by
  have hframe : cyclesPerFrame = 71 * 312 := rfl
  have hwidth := Beam.pictureWidth_eq
  have hheight := Beam.pictureHeight_eq
  apply Vector.ext
  intro i hi
  have hpixel := h.drawn (i % pictureWidth) (Nat.mod_lt _ (by omega)) (i / pictureWidth)
    (Nat.div_lt_of_lt_mul (by rw [Nat.mul_comm]; exact hi)) (by
      have hage : age v.beam (i % pictureWidth) (i / pictureWidth) < cyclesPerFrame := Nat.mod_lt _ (by omega)
      omega)
  have hplace : i / pictureWidth * pictureWidth + i % pictureWidth = i := Nat.div_add_mod' _ _
  simpa [pixel, hplace, Vector.getD, hi] using hpixel

theorem position_next_mod (b : Beam) : b.next.position = (b.position + 1) % cyclesPerFrame := by
  have hp := position_eq b
  have hc := b.cycle.isLt
  have hl := b.line.isLt
  have hframe : cyclesPerFrame = 71 * 312 := rfl
  have hcycles : cyclesPerLine = 71 := rfl
  have hlines : linesPerFrame = 312 := rfl
  by_cases hlast : b.position + 1 < cyclesPerFrame
  · rw [position_next b hlast, Nat.mod_eq_of_lt hlast]
  · have hnext : b.next = .start := by
      rw [Beam.next, dif_neg (by omega), Beam.nextLine, dif_neg (by omega)]
    have hend : b.position + 1 = cyclesPerFrame := by omega
    rw [hnext, hend, Nat.mod_self]
    rfl

/-- A pixel that is not under the beam is a cycle older. -/
theorem age_next {b : Beam} {x y : Nat} (hx : x < pictureWidth) (hy : y < pictureHeight)
    (hne : drawnAt x y ≠ b.next.position) : age b.next x y = age b x y + 1 := by
  have hat : drawnAt x y = 71 * (y + 28) + (x + 64) / 4 := rfl
  have hframe : cyclesPerFrame = 22152 := rfl
  have hwidth := Beam.pictureWidth_eq
  have hheight := Beam.pictureHeight_eq
  have hp := position_eq b
  have hc : b.cycle.val < 71 := b.cycle.isLt
  have hl : b.line.val < 312 := b.line.isLt
  rw [position_next_mod, hframe] at hne
  rw [age, age, position_next_mod, hframe]
  omega

section Cycles

variable {μ : Type} [VideoMemory μ] (memory : μ)

theorem advance_settings (h : v.settings = w.settings) : v.advance.settings = w.advance.settings := by
  have hbeam : v.beam = w.beam := (congrArg Vic.beam h :)
  have hdone : v.frameDone = w.frameDone := (congrArg Vic.frameDone h :)
  apply settings_ext
  · rw [advance_registers, advance_registers]
    exact (congrArg Vic.registers h :)
  · rw [advance_geometry, advance_geometry]
    exact (congrArg Vic.geometry h :)
  · rw [advance_ink, advance_ink]
    exact (congrArg Vic.ink h :)
  · rw [advance_beam, advance_beam, hbeam]
  · rw [advance_frameDone, advance_frameDone, hbeam, hdone]

theorem draw_settings (vic : Vic) : (vic.draw memory).settings = vic.settings := by
  obtain ⟨text, picture, h⟩ := draw_eq vic memory
  rw [h]
  rfl

/-- A line that begins now, or has begun with the same settings, is the same in both. -/
theorem Settled.advance (h : Settled n v w) (hin : v.advance.beam.inPictureLine)
    (hn : v.advance.beam.cycle.val < n + 1) : TextAlike v.advance.text w.advance.text := by
  have hbeam : v.beam = w.beam := (congrArg Vic.beam h.settings :)
  have hgeometry : v.geometry = w.geometry := (congrArg Vic.geometry h.settings :)
  rw [advance_beam] at hin hn
  by_cases hcycle : v.beam.next.cycle.val = 0
  · have hline : v.beam.next.line.val ≠ 0 := by
      have : 28 ≤ v.beam.next.line.val := hin
      omega
    rw [advance_text_start hcycle hline hin, advance_text_start (hbeam ▸ hcycle) (hbeam ▸ hline) (hbeam ▸ hin),
      hgeometry, hbeam]
    exact textAlike_startLine _ _ _ _
  · rw [advance_text_same hcycle, advance_text_same (hbeam ▸ hcycle)]
    -- The beam has moved on within its line.
    have hnext : v.beam.next.line = v.beam.line ∧ v.beam.next.cycle.val = v.beam.cycle.val + 1 := by
      unfold Beam.next at hcycle ⊢
      split_ifs at hcycle ⊢
      · exact ⟨rfl, rfl⟩
      · unfold Beam.nextLine at hcycle
        split_ifs at hcycle <;> exact absurd rfl hcycle
    refine h.text ?_ (by omega)
    rwa [Beam.inPictureLine, ← hnext.1]

theorem draw_pixel (vic : Vic) {x : Nat} (hx : x < pictureWidth) (y : Nat) :
    (vic.draw memory).pixel x y =
      if vic.beam.inPicture ∧ y = vic.beam.y ∧ vic.beam.x ≤ x ∧ x < vic.beam.x + 4 then
        (vic.groupUnder memory).pixel (x - vic.beam.x)
      else vic.pixel x y := by
  unfold draw
  by_cases hin : vic.beam.inPicture
  · rw [if_pos hin, drawGroup_eq, pixel_plot _ _ hx]
    simp only [hin, true_and]
    rfl
  · rw [if_neg hin, if_neg fun h => hin h.1]

theorem draw_text (vic : Vic) :
    (vic.draw memory).text = if vic.beam.inPicture then vic.textBehind memory else vic.text := by
  unfold draw
  split_ifs
  · rw [drawGroup_eq]
    rfl
  · rfl

/-- In a cycle both draw the same, once their text lines are the same. -/
theorem Settled.cycled (h : Settled n v w) : Settled (n + 1) (v.cycled memory) (w.cycled memory) := by
  have hadvance := advance_settings h.settings
  have hbeam : v.advance.beam = w.advance.beam := (congrArg Vic.beam hadvance :)
  have hold : v.beam = w.beam := (congrArg Vic.beam h.settings :)
  refine ⟨?_, fun hin hn => ?_, fun x hx y hy hage => ?_⟩
  · rw [Vic.cycled, draw_settings, hadvance, Vic.cycled, draw_settings]
  · rw [cycled_beam, ← advance_beam] at hin hn
    have halike := h.advance hin hn
    rw [Vic.cycled, Vic.cycled, draw_text, draw_text, ← hbeam]
    split_ifs
    · exact textBehind_alike memory hadvance halike
    · exact halike
  · rw [cycled_beam] at hage
    rw [Vic.cycled, Vic.cycled, draw_pixel memory _ hx, draw_pixel memory _ hx, ← hbeam]
    split_ifs with hunder
    · have hline : v.advance.beam.cycle.val < 71 := v.advance.beam.cycle.isLt
      have hcycles : cyclesPerLine = 71 := rfl
      have halike := h.advance hunder.1.1 (by omega)
      rw [groupUnder_alike memory hadvance halike]
    · have hne : drawnAt x y ≠ v.beam.next.position := by
        intro hat
        rw [← advance_beam] at hat
        exact hunder ⟨(under_of_drawnAt hx hat).1, (under_of_drawnAt hx hat).2⟩
      rw [age_next hx hy hne] at hage
      have hpixel := h.drawn x hx y hy (by omega)
      rwa [pixel, advance_picture, pixel, advance_picture]

theorem Settled.tick (h : Settled n v w) (cycles : Nat) :
    Settled (n + cycles) (v.tick memory cycles) (w.tick memory cycles) := by
  induction cycles with
  | zero => exact h
  | succ k ih =>
    rw [tick_succ, tick_succ, ← Nat.add_assoc]
    exact ih.cycled memory

end Cycles

/-! ### Runs with the same settings -/

theorem Settled.write (h : Settled n v w) (register x : UInt8) :
    Settled n (v.write register x) (w.write register x) := by
  refine ⟨?_, ?_, ?_⟩
  · rw [write_settings, h.settings, write_settings]
  · rw [write_beam, write_text, write_text]
    exact h.text
  · simp only [pixel, write_beam, write_picture]
    exact h.drawn

theorem Settled.takeFrameDone (h : Settled n v w) : Settled n v.takeFrameDone.2 w.takeFrameDone.2 :=
  ⟨(congrArg (fun u : Vic => { u with frameDone := false }) h.settings :), h.text, h.drawn⟩

theorem Settled.perform (h : Settled n v w) (o : Operation) :
    Settled (n + o.cycles) (v.perform o).2 (w.perform o).2 := by
  cases o with
  | write register x => exact h.write register x
  | read register => exact h
  | tick memory cycles => exact h.tick memory cycles
  | takeFrameDone => exact h.takeFrameDone

/-- The cycles that pass in a run. -/
def cyclesOf (os : List Operation) : Nat := (os.map Operation.cycles).sum

theorem Settled.run (h : Settled n v w) (os : List Operation) :
    Settled (n + cyclesOf os) (v.run os).2 (w.run os).2 := by
  induction os generalizing v w n with
  | nil => exact h
  | cons o os ih =>
    have hcycles : n + cyclesOf (o :: os) = n + o.cycles + cyclesOf os := by
      rw [cyclesOf, List.map_cons, List.sum_cons, ← Nat.add_assoc]
      rfl
    rw [hcycles]
    exact ih (h.perform o)

end Vic20.Vic
