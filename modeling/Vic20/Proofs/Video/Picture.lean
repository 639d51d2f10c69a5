import Vic20.Memory.Basic
import Vic20.Proofs.Video.Cell
import Vic20.Proofs.Video.Drawing

/-! The picture without the beam. A pixel is border or belongs to a cell, and which one follows from its place
alone. The beam draws the same picture in groups of four pixels, with a column that runs along the line and a
cell that is kept from its first half to its second. What ties these to the beam is `Ready`: the column is the
one under the next group, and its cell is kept or will be fetched. A group keeps this and shows what the
picture has there, from whatever edge the area begins at, so that a frame shows all of the picture
(`frame_picture`). -/

namespace Vic20

namespace Video

variable {μ : Type} [VideoMemory μ]

namespace Geometry

/-- How far a line of the picture is below the top of the character area. -/
def below (g : Geometry) (y : Nat) : Nat := ((y : Int) - g.top).toNat

/-- How far a column of the picture is from the left of the character area. -/
def across (g : Geometry) (x : Nat) : Nat := ((x : Int) - g.left).toNat

/-- A pixel outside the character area. -/
def Outside (g : Geometry) (x y : Nat) : Prop :=
  (y : Int) < g.top ∨ g.top + g.areaHeight ≤ (y : Int) ∨ (x : Int) < g.left ∨ g.right ≤ (x : Int)

instance (g : Geometry) (x y : Nat) : Decidable (g.Outside x y) :=
  inferInstanceAs (Decidable (_ ∨ _ ∨ _ ∨ _))

/-- The address of the character code of a column, on a line of the picture. -/
def codeAddress (g : Geometry) (y column : Nat) : UInt16 :=
  g.matrix + UInt16.ofNat (g.below y / g.charHeight * g.columns + column)

/-- The bits of a line of a character's shape. -/
def shape (g : Geometry) (memory : μ) (code : UInt8) (line : Nat) : UInt8 :=
  VideoMemory.glyph memory (processorAddress (g.glyphs.toNat + g.charHeight * code.toNat + line))

end Geometry

/-- A pixel of the picture. -/
def picturePixel (g : Geometry) (ink : Ink) (memory : μ) (x y : Nat) : Colour :=
  if g.Outside x y then ink.border
  else
    let a := g.codeAddress y (g.across x / 8)
    let bits := g.shape memory (VideoMemory.matrix memory a) (g.below y % g.charHeight)
    cellPixel ink (VideoMemory.colour memory (a &&& 0x3FF)) bits (g.across x % 8)

/-- The two halves of a cell on a line of the picture. -/
def cellHalves (g : Geometry) (ink : Ink) (memory : μ) (y column : Nat) : Group × Group :=
  let a := g.codeAddress y column
  halves ink (VideoMemory.colour memory (a &&& 0x3FF))
    (g.shape memory (VideoMemory.matrix memory a) (g.below y % g.charHeight))

/-- The text line as it is before the group at column `x` of the picture is drawn. -/
structure Ready (g : Geometry) (ink : Ink) (memory : μ) (t : TextLine) (x y : Nat) : Prop where
  address : t.address = g.matrix + UInt16.ofNat (g.below y / g.charHeight * g.columns)
  cellLine : t.cellLine = g.below y % g.charHeight
  column : t.column = g.across x / 8
  kept : t.fetch = true ∨ (t.high, t.low) = cellHalves g ink memory y t.column

/-- The text line of line `y` before the group at column `x`: all border, or ready up to the right edge. -/
structure OnLine (g : Geometry) (ink : Ink) (memory : μ) (t : TextLine) (x y : Nat) : Prop where
  border : t.border = Vic.outsideRows g y
  ready : t.border = false → (x : Int) < g.right → Ready g ink memory t x y

variable {g : Geometry} {ink : Ink} {memory : μ} {t : TextLine} {x y : Nat}

theorem outsideRows_iff (g : Geometry) (y : Nat) :
    Vic.outsideRows g y = true ↔ (y : Int) < g.top ∨ g.top + g.areaHeight ≤ (y : Int) := by
  simp [Vic.outsideRows]

/-- The next group belongs to the same cell. -/
theorem Ready.stay (h : Ready g ink memory t x y) (hx : g.across (x + 4) / 8 = g.across x / 8) :
    Ready g ink memory t (x + 4) y :=
  ⟨h.address, h.cellLine, by rw [hx, h.column], h.kept⟩

/-- The next group begins a cell. -/
theorem Ready.turn (h : Ready g ink memory t x y) (hx : g.across (x + 4) / 8 = g.across x / 8 + 1) :
    Ready g ink memory { t with column := t.column + 1, fetch := true } (x + 4) y :=
  ⟨h.address, h.cellLine, by rw [hx, h.column], .inl rfl⟩

/-- A line begins at the cell under the left of the picture. -/
theorem onLine_startLine (g : Geometry) (ink : Ink) (memory : μ) (t : TextLine) (y : Nat) :
    OnLine g ink memory (Vic.startLine g t y) 0 y := by
  unfold Vic.startLine
  cases hrows : Vic.outsideRows g y with
  | true => exact ⟨by rw [if_pos rfl, hrows], fun h => absurd h (by simp)⟩
  | false =>
    refine ⟨by rw [if_neg (by simp), hrows], fun _ _ => ⟨rfl, rfl, ?_, .inl rfl⟩⟩
    have hleft : (if g.left < 0 then (-g.left).toNat / 8 else 0) = g.across 0 / 8 := by
      unfold Geometry.across
      split_ifs <;> omega
    exact hleft

/-- The four pixels of a group lie on one side of the edges. -/
theorem outside_group (he : Vic.Edges g) (hx : 4 ∣ x) {k : Nat} (hk : k < 4) :
    g.Outside (x + k) y ↔ g.Outside x y := by
  obtain ⟨hleft, hright⟩ := he
  unfold Geometry.Outside
  omega

/-- Inside the area a pixel belongs to a half of a cell. -/
theorem picturePixel_inside (h : ¬g.Outside x y) (column : Nat) {p : Nat} (hp : p < 4) :
    (g.across x = 8 * column + p →
      picturePixel g ink memory x y = (cellHalves g ink memory y column).1.pixel p) ∧
    (g.across x = 8 * column + (p + 4) →
      picturePixel g ink memory x y = (cellHalves g ink memory y column).2.pixel p) := by
  have hpixel (q : Nat) (hq : q < 8) (hx : g.across x = 8 * column + q) :
      picturePixel g ink memory x y =
        cellPixel ink (VideoMemory.colour memory (g.codeAddress y column &&& 0x3FF))
          (g.shape memory (VideoMemory.matrix memory (g.codeAddress y column)) (g.below y % g.charHeight)) q := by
    have hcolumn : g.across x / 8 = column := by omega
    have hplace : g.across x % 8 = q := by omega
    rw [picturePixel, if_neg h, hcolumn, hplace]
  constructor
  · intro hx
    rw [hpixel p (by omega) hx]
    exact (halves_pixel _ _ _ hp).1.symm
  · intro hx
    rw [hpixel (p + 4) (by omega) hx]
    exact (halves_pixel _ _ _ hp).2.symm

end Video

namespace Vic

open Video

variable {μ : Type} [VideoMemory μ] {vic : Vic} {memory : μ} {g : Geometry} {x y : Nat}

theorem beam_x_dvd (vic : Vic) : 4 ∣ vic.beam.x := by
  have hx : vic.beam.x = 4 * vic.beam.cycle.val - 64 := rfl
  omega

/-- What is fetched is the cell of the current column. -/
theorem cell_eq (h : Ready vic.geometry vic.ink memory vic.text x y) :
    vic.cell memory = cellHalves vic.geometry vic.ink memory y vic.text.column := by
  have haddress : vic.matrixAddress = vic.geometry.codeAddress y vic.text.column := by
    rw [matrixAddress, Geometry.codeAddress, h.address, UInt16.ofNat_add, UInt16.add_assoc]
  have hshape (code : UInt8) : VideoMemory.glyph memory (vic.glyphAddress code) =
      vic.geometry.shape memory code (vic.geometry.below y % vic.geometry.charHeight) := by
    rw [glyphAddress, Geometry.shape, h.cellLine, Nat.mul_comm]
  unfold cell cellHalves colourAddress
  dsimp only
  rw [haddress, hshape]
  rfl

/-- The current cell has been fetched. -/
theorem filled_kept (h : Ready vic.geometry vic.ink memory vic.text x y) :
    ((vic.filled memory).high, (vic.filled memory).low) =
      cellHalves vic.geometry vic.ink memory y vic.text.column := by
  unfold filled
  split_ifs with hfetch
  · exact cell_eq h
  · exact h.kept.resolve_left hfetch

theorem filled_eq (vic : Vic) (memory : μ) :
    ∃ fetch high low, vic.filled memory = { vic.text with fetch, high, low } := by
  unfold filled
  split_ifs <;> exact ⟨_, _, _, rfl⟩

theorem filled_border (vic : Vic) (memory : μ) : (vic.filled memory).border = vic.text.border := by
  obtain ⟨_, _, _, h⟩ := filled_eq vic memory
  rw [h]

theorem filled_ready (h : Ready vic.geometry vic.ink memory vic.text x y) :
    Ready vic.geometry vic.ink memory (vic.filled memory) x y := by
  have hkept := filled_kept h
  obtain ⟨_, _, _, hfilled⟩ := filled_eq vic memory
  rw [hfilled] at hkept ⊢
  exact ⟨h.address, h.cellLine, h.column, .inr hkept⟩

/-- The group under the beam is border just where the picture has border. -/
theorem drawsBorder_iff (h : OnLine vic.geometry vic.ink memory vic.text vic.beam.x vic.beam.y) :
    vic.drawsBorder = true ↔ vic.geometry.Outside vic.beam.x vic.beam.y := by
  unfold drawsBorder Geometry.Outside
  rw [h.border]
  simp only [Bool.or_eq_true, decide_eq_true_eq, outsideRows_iff, or_assoc]

/-- The text line moves on to the next group. -/
structure DrawsGroup (vic : Vic) (memory : μ) (text : TextLine) (g : Group) : Prop where
  drawn : vic.drawGroup memory = ({ vic with text } : Vic).plot g
  pixel : ∀ k < 4, g.pixel k = picturePixel vic.geometry vic.ink memory (vic.beam.x + k) vic.beam.y
  onLine : OnLine vic.geometry vic.ink memory text (vic.beam.x + 4) vic.beam.y

theorem drawGroup_border (he : Edges vic.geometry)
    (h : OnLine vic.geometry vic.ink memory vic.text vic.beam.x vic.beam.y) (hb : vic.drawsBorder = true) :
    vic.DrawsGroup memory vic.text ⟨vic.ink.border, vic.ink.border, vic.ink.border, vic.ink.border⟩ := by
  have houtside := (drawsBorder_iff h).1 hb
  have hx := vic.beam_x_dvd
  refine ⟨if_pos hb, fun k hk => ?_, h.border, fun hborder hright => ?_⟩
  · rw [picturePixel, if_pos ((outside_group he hx hk).2 houtside)]
    match k, hk with
    | 0, _ | 1, _ | 2, _ | 3, _ => rfl
  · -- The group is left of the area, where the first column waits.
    have hrows : ¬Vic.outsideRows vic.geometry vic.beam.y = true := by simp [← h.border, hborder]
    rw [outsideRows_iff] at hrows
    obtain ⟨hleft, -⟩ := he
    unfold Geometry.Outside at houtside
    have hnext : (vic.beam.x : Int) + 4 ≤ vic.geometry.left := by omega
    have hready := h.ready hborder (by omega)
    have hacross : vic.geometry.across (vic.beam.x + 4) = vic.geometry.across vic.beam.x := by
      unfold Geometry.across
      omega
    exact hready.stay (by rw [hacross])

/-- Four pixels on from a place in the area. -/
theorem across_add (h : ¬g.Outside x y) (k : Nat) : g.across (x + k) = g.across x + k := by
  unfold Geometry.Outside at h
  unfold Geometry.across
  omega

theorem inFirstHalf_iff (he : Edges vic.geometry) (h : ¬vic.geometry.Outside vic.beam.x y) :
    vic.geometry.across vic.beam.x % 8 = if vic.inFirstHalf then 0 else 4 := by
  obtain ⟨hleft, -⟩ := he
  have hx := vic.beam_x_dvd
  unfold Geometry.Outside at h
  unfold inFirstHalf Geometry.across
  split_ifs with hhalf <;> rw [decide_eq_true_eq] at hhalf <;> omega

/-- The beam is in the character area, on a line that is ready. -/
structure InArea (vic : Vic) (memory : μ) : Prop where
  noBorder : vic.drawsBorder = false
  inside : ¬vic.geometry.Outside vic.beam.x vic.beam.y
  ready : Ready vic.geometry vic.ink memory vic.text vic.beam.x vic.beam.y

theorem inArea (h : OnLine vic.geometry vic.ink memory vic.text vic.beam.x vic.beam.y)
    (hb : vic.drawsBorder = false) : vic.InArea memory := by
  have hinside : ¬vic.geometry.Outside vic.beam.x vic.beam.y := by simp [← drawsBorder_iff h, hb]
  have hborder : vic.text.border = false := by
    simp only [drawsBorder, Bool.or_eq_false_iff] at hb
    exact hb.1.1
  have hright : (vic.beam.x : Int) < vic.geometry.right := by
    unfold Geometry.Outside at hinside
    omega
  exact ⟨hb, hinside, h.ready hborder hright⟩

theorem drawGroup_first (he : Edges vic.geometry) (h : vic.InArea memory)
    (hl : OnLine vic.geometry vic.ink memory vic.text vic.beam.x vic.beam.y)
    (hfirst : vic.inFirstHalf = true) :
    vic.DrawsGroup memory (vic.filled memory) (vic.filled memory).high := by
  have hcolumn := h.ready.column
  have hhalf := inFirstHalf_iff he h.inside
  rw [if_pos hfirst] at hhalf
  have hdrawn := drawGroup_inside vic memory h.noBorder
  rw [if_pos hfirst] at hdrawn
  refine ⟨hdrawn, fun k hk => ?_, (filled_border vic memory).trans hl.border, fun _ _ => ?_⟩
  · have hplace := across_add h.inside k
    have hinside := mt (outside_group he vic.beam_x_dvd hk).1 h.inside
    rw [(picturePixel_inside hinside vic.text.column hk).1 (by omega), ← filled_kept h.ready]
  · have hplace := across_add h.inside 4
    exact (filled_ready h.ready).stay (by omega)

theorem drawGroup_second (he : Edges vic.geometry) (h : vic.InArea memory)
    (hl : OnLine vic.geometry vic.ink memory vic.text vic.beam.x vic.beam.y)
    (hsecond : ¬vic.inFirstHalf = true) :
    vic.DrawsGroup memory { vic.filled memory with column := (vic.filled memory).column + 1, fetch := true }
      (vic.filled memory).low := by
  have hcolumn := h.ready.column
  have hhalf := inFirstHalf_iff he h.inside
  rw [if_neg hsecond] at hhalf
  have hdrawn := drawGroup_inside vic memory h.noBorder
  rw [if_neg hsecond] at hdrawn
  refine ⟨hdrawn, fun k hk => ?_, (filled_border vic memory).trans hl.border, fun _ _ => ?_⟩
  · have hplace := across_add h.inside k
    have hinside := mt (outside_group he vic.beam_x_dvd hk).1 h.inside
    rw [(picturePixel_inside hinside vic.text.column hk).2 (by omega), ← filled_kept h.ready]
  · have hplace := across_add h.inside 4
    exact (filled_ready h.ready).turn (by omega)

/-- A group shows what the picture has there, and leaves the line ready for the next. -/
theorem drawGroup_drawsGroup (he : Edges vic.geometry)
    (h : OnLine vic.geometry vic.ink memory vic.text vic.beam.x vic.beam.y) :
    ∃ text g, vic.DrawsGroup memory text g := by
  cases hb : vic.drawsBorder with
  | true => exact ⟨_, _, drawGroup_border he h hb⟩
  | false =>
    by_cases hfirst : vic.inFirstHalf = true
    · exact ⟨_, _, drawGroup_first he (inArea h hb) h hfirst⟩
    · exact ⟨_, _, drawGroup_second he (inArea h hb) h hfirst⟩

/-! ### The frame -/

/-- The column of the picture that the next group is drawn at. While the beam is blanked that is the first. -/
def ahead (vic : Vic) : Nat := 4 * (vic.beam.cycle.val + 1) - pictureClock

/-- The position of the beam at which a pixel is drawn. -/
def drawnAt (x y : Nat) : Nat := cyclesPerLine * (y + verticalBlanking) + (x + pictureClock) / 4

/-- A frame that has been drawn up to the beam, as the chip was set up at its start. -/
structure Shows (start : Vic) (memory : μ) (vic : Vic) : Prop where
  geometry : vic.geometry = start.geometry
  ink : vic.ink = start.ink
  onLine : vic.beam.inPictureLine → OnLine start.geometry start.ink memory vic.text vic.ahead vic.beam.y
  drawn : ∀ x < pictureWidth, ∀ y, drawnAt x y ≤ vic.beam.position →
    vic.pixel x y = picturePixel start.geometry start.ink memory x y

theorem position_eq (b : Beam) : b.position = 71 * b.line.val + b.cycle.val := rfl

/-- The next cycle is on the same line, or begins the next one. -/
theorem next_cases (b : Beam) (h : b.position + 1 < cyclesPerFrame) :
    (b.next.line = b.line ∧ b.next.cycle.val = b.cycle.val + 1) ∨
      (b.next.line.val = b.line.val + 1 ∧ b.next.cycle.val = 0 ∧ b.cycle.val + 1 = 71) := by
  have hp := position_eq b
  have hframe : cyclesPerFrame = 71 * 312 := rfl
  have hcycles : cyclesPerLine = 71 := rfl
  have hlines : linesPerFrame = 312 := rfl
  unfold Beam.next
  by_cases hcycle : b.cycle.val + 1 < cyclesPerLine
  · rw [dif_pos hcycle]
    exact .inl ⟨rfl, rfl⟩
  · have hc := b.cycle.isLt
    have hline : b.line.val + 1 < linesPerFrame := by omega
    rw [dif_neg hcycle, Beam.nextLine, dif_pos hline]
    exact .inr ⟨rfl, rfl, by omega⟩

theorem position_next (b : Beam) (h : b.position + 1 < cyclesPerFrame) :
    b.next.position = b.position + 1 := by
  rw [position_eq, position_eq]
  rcases next_cases b h with ⟨hline, hcycle⟩ | ⟨hline, hcycle, hend⟩ <;> omega

theorem advance_text_same (h : vic.beam.next.cycle.val ≠ 0) : vic.advance.text = vic.text := by
  unfold Vic.advance
  dsimp only
  rw [if_neg h]

theorem advance_text_start (h : vic.beam.next.cycle.val = 0) (hline : vic.beam.next.line.val ≠ 0)
    (hin : vic.beam.next.inPictureLine) :
    vic.advance.text = startLine vic.geometry vic.text vic.beam.next.y := by
  unfold Vic.advance
  dsimp only
  rw [if_pos h, if_neg hline, if_pos hin]

variable {start : Vic}

/-- Once the beam has moved on, the line under it is ready for its group. -/
theorem Shows.advance (h : Shows start memory vic) (hp : vic.beam.position + 1 < cyclesPerFrame)
    (hin : vic.advance.beam.inPictureLine) :
    OnLine start.geometry start.ink memory vic.advance.text vic.advance.beam.x vic.advance.beam.y := by
  rw [advance_beam] at hin ⊢
  have hx : vic.beam.next.x = 4 * vic.beam.next.cycle.val - pictureClock := rfl
  rcases next_cases vic.beam hp with ⟨hline, hcycle⟩ | ⟨hline, hcycle, -⟩
  · have hy : vic.beam.next.y = vic.beam.y := by rw [Beam.y, Beam.y, hline]
    rw [advance_text_same (by omega), hx, hcycle, hy]
    exact h.onLine (by rwa [Beam.inPictureLine, ← hline])
  · have hx0 : vic.beam.next.x = 0 := by rw [hx, hcycle]; rfl
    rw [advance_text_start hcycle (by omega) hin, h.geometry, hx0]
    exact onLine_startLine _ _ _ _ _

theorem under_of_drawnAt {b : Beam} (hx : x < pictureWidth) (h : drawnAt x y = b.position) :
    b.inPicture ∧ y = b.y ∧ b.x ≤ x ∧ x < b.x + 4 := by
  have hp := position_eq b
  have hat : drawnAt x y = 71 * (y + 28) + (x + 64) / 4 := rfl
  have hbx : b.x = 4 * b.cycle.val - 64 := rfl
  have hby : b.y = b.line.val - 28 := rfl
  have hwidth := Beam.pictureWidth_eq
  have hc : b.cycle.val < 71 := b.cycle.isLt
  have hin : 28 ≤ b.line.val ∧ 63 ≤ 4 * b.cycle.val := by omega
  exact ⟨hin, by omega⟩

/-- What the beam has passed stays as it was drawn. -/
theorem Shows.behind (h : Shows start memory vic) (hp : vic.beam.position + 1 < cyclesPerFrame)
    (hx : x < pictureWidth) (hat : drawnAt x y ≤ vic.advance.beam.position)
    (hne : drawnAt x y ≠ vic.advance.beam.position) :
    vic.advance.pixel x y = picturePixel start.geometry start.ink memory x y := by
  rw [advance_beam, position_next _ hp] at hat hne
  rw [pixel, advance_picture]
  exact h.drawn x hx y (by omega)

/-- A cycle that draws. -/
theorem Shows.plot (he : Edges start.geometry) (h : Shows start memory vic)
    (hp : vic.beam.position + 1 < cyclesPerFrame) (hin : vic.advance.beam.inPicture) :
    Shows start memory (vic.cycled memory) := by
  have hgeometry := (advance_geometry vic).trans h.geometry
  have hink := (advance_ink vic).trans h.ink
  have honLine := h.advance hp hin.1
  rw [← hgeometry, ← hink] at honLine
  obtain ⟨text, g, hg⟩ := drawGroup_drawsGroup (by rwa [hgeometry]) honLine
  have hcycled : vic.cycled memory = ({ vic.advance with text } : Vic).plot g := (if_pos hin).trans hg.drawn
  refine ⟨?_, ?_, ?_, ?_⟩ <;> rw [hcycled]
  · exact hgeometry
  · exact hink
  · intro _
    have hahead : ({ vic.advance with text } : Vic).ahead = vic.advance.beam.x + 4 := by
      have hx : vic.advance.beam.x = 4 * vic.advance.beam.cycle.val - 64 := rfl
      have hclock : 63 ≤ 4 * vic.advance.beam.cycle.val := hin.2
      change 4 * (vic.advance.beam.cycle.val + 1) - 64 = _
      omega
    have hnext := hg.onLine
    rw [hgeometry, hink, ← hahead] at hnext
    exact hnext
  · intro x hx y hat
    rw [pixel_plot _ _ hx]
    split_ifs with hunder
    · obtain ⟨hy, hbx, hlt⟩ : y = vic.advance.beam.y ∧ vic.advance.beam.x ≤ x ∧
        x < vic.advance.beam.x + 4 := hunder
      have hpixel := hg.pixel (x - vic.advance.beam.x) (by omega)
      rw [hpixel, Nat.add_sub_cancel' hbx, hgeometry, hink, ← hy]
    · exact h.behind hp hx hat fun hnow => hunder (under_of_drawnAt hx hnow).2

/-- A cycle while the beam is blanked. -/
theorem Shows.blank (h : Shows start memory vic) (hp : vic.beam.position + 1 < cyclesPerFrame)
    (hout : ¬vic.advance.beam.inPicture) : Shows start memory (vic.cycled memory) := by
  have hcycled : vic.cycled memory = vic.advance := if_neg hout
  rw [hcycled]
  refine ⟨(advance_geometry vic).trans h.geometry, (advance_ink vic).trans h.ink, fun hin => ?_,
    fun x hx y hat => h.behind hp hx hat fun hnow => hout (under_of_drawnAt hx hnow).1⟩
  have hahead : vic.advance.ahead = vic.advance.beam.x := by
    have hx : vic.advance.beam.x = 4 * vic.advance.beam.cycle.val - 64 := rfl
    have hclock : ¬63 ≤ 4 * vic.advance.beam.cycle.val := fun hclock => hout ⟨hin, hclock⟩
    change 4 * (vic.advance.beam.cycle.val + 1) - 64 = _
    omega
  rw [hahead]
  exact h.advance hp hin

theorem Shows.cycled (he : Edges start.geometry) (h : Shows start memory vic)
    (hp : vic.beam.position + 1 < cyclesPerFrame) : Shows start memory (vic.cycled memory) := by
  by_cases hin : vic.advance.beam.inPicture
  · exact h.plot he hp hin
  · exact h.blank hp hin

/-- From its start a frame is drawn cycle by cycle. -/
theorem shows_tick (he : Edges start.geometry) (hs : start.beam = .start) (memory : μ) {n : Nat}
    (hn : n < cyclesPerFrame) :
    (start.tick memory n).beam.position = n ∧ Shows start memory (start.tick memory n) := by
  induction n with
  | zero =>
    refine ⟨by rw [tick, hs]; rfl, rfl, rfl, fun hin => ?_, fun x hx y hat => ?_⟩ <;> rw [tick, hs] at *
    · exact absurd hin (by decide)
    · have hat : 71 * (y + 28) + (x + 64) / 4 ≤ 0 := hat
      omega
  | succ n ih =>
    obtain ⟨hposition, hshows⟩ := ih (by omega)
    rw [tick_succ]
    refine ⟨?_, hshows.cycled he (by omega)⟩
    rw [cycled_beam, position_next _ (by omega), hposition]

/-- The last cycle of a frame only brings the beam back. -/
theorem cycled_last (h : vic.beam.position + 1 = cyclesPerFrame) (memory : μ) :
    (vic.cycled memory).picture = vic.picture := by
  have hp := position_eq vic.beam
  have hframe : cyclesPerFrame = 71 * 312 := rfl
  have hcycles : cyclesPerLine = 71 := rfl
  have hlines : linesPerFrame = 312 := rfl
  have hc := vic.beam.cycle.isLt
  have hl := vic.beam.line.isLt
  have hnext : vic.beam.next = .start := by
    rw [Beam.next, dif_neg (by omega), Beam.nextLine, dif_neg (by omega)]
  have hout : ¬vic.advance.beam.inPicture := by
    rw [advance_beam, hnext]
    decide
  rw [cycled, draw, if_neg hout, advance_picture]

/-- A frame shows the picture, whatever the chip went through before. Nothing else is left of what the picture
held, and the area can begin left of it or above it and run over its right and its bottom. -/
theorem frame_picture {vic : Vic} (h : Reachable vic) (hs : vic.beam = .start) (memory : μ) {x y : Nat}
    (hx : x < pictureWidth) (hy : y < pictureHeight) :
    (vic.tick memory cyclesPerFrame).pixel x y = picturePixel vic.geometry vic.ink memory x y := by
  obtain ⟨n, hn⟩ : ∃ n, cyclesPerFrame = n + 1 := ⟨22151, rfl⟩
  obtain ⟨hposition, hshows⟩ := shows_tick h.edges hs memory (n := n) (by omega)
  have hat : drawnAt x y = 71 * (y + 28) + (x + 64) / 4 := rfl
  have hframe : cyclesPerFrame = 71 * 312 := rfl
  have hwidth := Beam.pictureWidth_eq
  have hheight := Beam.pictureHeight_eq
  rw [hn, tick_succ, pixel, cycled_last (by omega)]
  exact hshows.drawn x hx y (by omega)

/-- A chip whose character area begins above and left of the picture and is larger than it. -/
def oversized : Vic :=
  ((((Vic.new.write 0x0 0x02).write 0x1 0x05).write 0x2 0xA0).write 0x3 0x7F).write 0xF 0x1B

def stripes : Memory := .new ⟨.zero _, .zero _, .filled _ 0xF0⟩

theorem frame_picture_oversized :
    Reachable oversized ∧ oversized.beam = .start ∧ oversized.geometry.left = -20 ∧
      oversized.geometry.right = 236 ∧ 3 < pictureWidth ∧ 5 < pictureHeight ∧
      (oversized.tick stripes cyclesPerFrame).pixel 3 5 = 1 := by
  have hreachable : Reachable oversized :=
    ((((Reachable.new.write 0x0 0x02).write 0x1 0x05).write 0x2 0xA0).write 0x3 0x7F).write 0xF 0x1B
  have hpicture : picturePixel oversized.geometry oversized.ink stripes 3 5 = 1 := by decide +kernel
  exact ⟨hreachable, rfl, rfl, rfl, by decide, by decide,
    (frame_picture hreachable rfl stripes (by decide) (by decide)).trans hpicture⟩

end Vic
end Vic20
