import Vic20.Proofs.Video.Settled

/-! The video chip with the counters and the colour slots that it keeps. The beam is two 16-bit counters, whose ends
are found by comparing for equality, and a cell's colour is put into a slot beside the screen's colours before
its bits choose among them. A difference of counters below zero, a division by zero and four pixels beyond the
picture have no result. From every state that a chip can come to all of these have one, and what comes out is the
chip that is drawn with (`run?_chip`). -/

namespace Vic20

namespace Video

/-- The pixel clock in the line, and the line. -/
structure Scan where
  x : UInt16
  y : UInt16
  deriving DecidableEq, Repr

def Beam.scan (b : Beam) : Scan := ⟨UInt16.ofNat b.clock, UInt16.ofNat b.line.val⟩

/-- The colours that registers and cells set. Of the two slots for single bits the second is the cell's, and of the
four for pairs the third. -/
structure Slots where
  invert : UInt8
  border : Colour
  hires : Vector Colour 2
  multi : Vector Colour 4
  deriving DecidableEq

def slots₂ (a b : Colour) : Vector Colour 2 := #v[a, b]

def slots₄ (a b c d : Colour) : Vector Colour 4 := #v[a, b, c, d]

/-- The slots with the colours of the screen and two of cells. -/
def Ink.slots (i : Ink) (a b : Colour) : Slots :=
  ⟨i.invert, i.border, slots₂ i.background a, slots₄ i.background i.border b i.auxiliary⟩

theorem bit_lt (bits : UInt8) (shift : Nat) : bits.toNat >>> shift % 2 < 2 := Nat.mod_lt _ (by decide)

theorem pair_lt (bits : UInt8) (shift : Nat) : bits.toNat >>> shift % 4 < 4 := Nat.mod_lt _ (by decide)

/-- The slot that a bit chooses. -/
def bitSlot (slots : Vector Colour 2) (bits : UInt8) (shift : Nat) : Colour :=
  slots.get ⟨bits.toNat >>> shift % 2, bit_lt bits shift⟩

/-- The slot that two bits choose. -/
def pairSlot (slots : Vector Colour 4) (bits : UInt8) (shift : Nat) : Colour :=
  slots.get ⟨bits.toNat >>> shift % 4, pair_lt bits shift⟩

namespace Slots

def setAuxiliary (s : Slots) (v : UInt8) : Slots := { s with multi := s.multi.setIfInBounds 3 (highColour v) }

def setScreen (s : Slots) (v : UInt8) : Slots where
  invert := if v &&& 0x08 == 0 then 0xFF else 0x00
  border := lowColour v
  hires := s.hires.setIfInBounds 0 (highColour v)
  multi := (s.multi.setIfInBounds 1 (lowColour v)).setIfInBounds 0 (highColour v)

/-- Takes in a cell's colour, and gives the halves that its bits choose. -/
def cell (s : Slots) (colour bits : UInt8) : (Group × Group) × Slots :=
  if colour &&& 0x08 != 0 then
    let multi := s.multi.setIfInBounds 2 (lowColour colour)
    let slot := pairSlot multi bits
    ((⟨slot 6, slot 6, slot 4, slot 4⟩, ⟨slot 2, slot 2, slot 0, slot 0⟩), { s with multi })
  else
    let hires := s.hires.setIfInBounds 1 (lowColour colour)
    let slot := bitSlot hires (bits ^^^ s.invert)
    ((⟨slot 7, slot 6, slot 5, slot 4⟩, ⟨slot 3, slot 2, slot 1, slot 0⟩), { s with hires })

end Slots

/-- The difference, unless it is below zero. -/
def sub? (a b : UInt16) : Option UInt16 := if b ≤ a then some (a - b) else none

/-- Quotient and remainder, unless the divisor is zero. -/
def divMod? (a b : Int) : Option (Int × Int) := if b = 0 then none else some (a.tdiv b, a.tmod b)

/-- Puts four pixels into the picture, unless they are beyond it. -/
def fill? (p : Picture) (start : Nat) (g : Group) : Option Picture :=
  if h : start + 4 ≤ pictureWidth * pictureHeight then
    some ((((p.set start g.p0).set (start + 1) g.p1).set (start + 2) g.p2).set (start + 3) g.p3)
  else none

end Video

open Video

structure Chip where
  registers : Vector UInt8 16
  geometry : Geometry
  slots : Slots
  scan : Scan
  text : TextLine
  frameDone : Bool
  picture : Picture

namespace Chip

def reset (c : Chip) : Chip :=
  { c with
    registers := Vector.replicate 16 0
    geometry := { areaHeight := c.geometry.areaHeight, right := c.geometry.right }
    slots := { c.slots with invert := 0, multi := c.slots.multi.setIfInBounds 3 black }
    scan := ⟨0, 0⟩
    text := { c.text with border := false, column := 0, cellLine := 0 }
    frameDone := false }

def stored (c : Chip) (register : UInt8) : UInt8 :=
  c.registers.get ⟨register.toNat % 16, Vic.register_lt register⟩

def updateMatrix (c : Chip) (g : Geometry) : Geometry :=
  { g with matrix := Geometry.matrixAddress (c.stored 2) (c.stored 5) }

def derive (c : Chip) (register : Nat) (v : UInt8) : Chip :=
  match register with
  | 0x0 => { c with geometry := c.geometry.setLeft v }
  | 0x1 => { c with geometry := c.geometry.setTop v }
  | 0x2 => { c with geometry := (c.updateMatrix c.geometry).setColumns v }
  | 0x3 => { c with geometry := c.geometry.setRows v }
  | 0x5 => { c with geometry := c.updateMatrix (c.geometry.setGlyphs v) }
  | 0xE => { c with slots := c.slots.setAuxiliary v }
  | 0xF => { c with slots := c.slots.setScreen v }
  | _ => c

def write (c : Chip) (register v : UInt8) : Chip :=
  if c.stored register == v then c
  else
    let c := { c with registers := c.registers.set (register.toNat % 16) v (Vic.register_lt register) }
    c.derive (register.toNat % 16) v

def startLine? (c : Chip) : Option Chip := do
  let y ← sub? c.scan.y (UInt16.ofNat verticalBlanking)
  if Vic.outsideRows c.geometry y.toNat then return { c with text := { c.text with border := true } }
  let (row, line) ← divMod? ((y.toNat : Int) - c.geometry.top) c.geometry.charHeight
  return { c with text := { c.text with
    border := false
    column := if c.geometry.left < 0 then (-c.geometry.left).toNat / 8 else 0
    cellLine := line.toNat
    address := c.geometry.matrix + UInt16.ofInt (row * c.geometry.columns)
    fetch := true } }

def advance? (c : Chip) : Option Chip :=
  let c := { c with scan := { c.scan with x := c.scan.x + 4 } }
  if c.scan.x = UInt16.ofNat clocksPerLine then
    let c := { c with scan := ⟨0, c.scan.y + 1⟩ }
    if c.scan.y = UInt16.ofNat linesPerFrame then
      some { c with scan := ⟨0, 0⟩, text := { c.text with border := false }, frameDone := true }
    else if UInt16.ofNat verticalBlanking ≤ c.scan.y then c.startLine?
    else some c
  else some c

section Drawing

variable {μ : Type} [VideoMemory μ]

def fetchCell (c : Chip) (memory : μ) : Chip :=
  let address := c.text.address + UInt16.ofNat c.text.column
  let code := VideoMemory.matrix memory address
  let bits := VideoMemory.glyph memory (processorAddress
    (c.geometry.glyphs.toNat + code.toNat * c.geometry.charHeight + c.text.cellLine))
  let (halves, slots) := c.slots.cell (VideoMemory.colour memory (address &&& 0x3FF)) bits
  { c with slots, text := { c.text with fetch := false, high := halves.1, low := halves.2 } }

def plot? (c : Chip) (start : Nat) (g : Group) : Option Chip :=
  (fill? c.picture start g).map fun picture => { c with picture }

def drawsBorder (c : Chip) (x : Int) : Bool := c.text.border || x < c.geometry.left || c.geometry.right ≤ x

def fetched (c : Chip) (memory : μ) : Chip := if c.text.fetch then c.fetchCell memory else c

def drawHalf? (c : Chip) (x : Int) (start : Nat) : Option Chip :=
  if (c.geometry.left + x) % 8 < 4 then c.plot? start c.text.high
  else ({ c with text := { c.text with column := c.text.column + 1, fetch := true } } : Chip).plot? start c.text.low

def drawAt? (c : Chip) (memory : μ) (x : Int) (start : Nat) : Option Chip :=
  if c.drawsBorder x then c.plot? start ⟨c.slots.border, c.slots.border, c.slots.border, c.slots.border⟩
  else (c.fetched memory).drawHalf? x start

def drawGroup? (c : Chip) (memory : μ) : Option Chip := do
  let x ← sub? c.scan.x (UInt16.ofNat pictureClock)
  let y ← sub? c.scan.y (UInt16.ofNat verticalBlanking)
  c.drawAt? memory x.toNat (y.toNat * pictureWidth + x.toNat)

def cycle? (c : Chip) (memory : μ) : Option Chip := do
  let c ← c.advance?
  if UInt16.ofNat verticalBlanking ≤ c.scan.y ∧ UInt16.ofNat horizontalBlanking ≤ c.scan.x then
    c.drawGroup? memory
  else return c

def tick? (c : Chip) (memory : μ) : Nat → Option Chip
  | 0 => some c
  | n + 1 => do (← c.cycle? memory).tick? memory n

end Drawing

def perform? (c : Chip) : Vic.Operation → Option Chip
  | .write register v => some (c.write register v)
  | .read _ => some c
  | @Vic.Operation.tick _ _ memory cycles => c.tick? memory cycles
  | .takeFrameDone => some { c with frameDone := false }

def run? (c : Chip) : List Vic.Operation → Option Chip
  | [] => some c
  | o :: os => do (← c.perform? o).run? os

end Chip

/-! ### Each operation has a result -/

namespace Video

theorem scan_x_toNat (b : Beam) : b.scan.x.toNat = b.clock := by
  have hc : b.cycle.val < 71 := b.cycle.isLt
  have hclock : b.clock = 4 * b.cycle.val := rfl
  have hsize : UInt16.size = 65536 := rfl
  exact UInt16.toNat_ofNat_of_lt' (by omega)

theorem scan_y_toNat (b : Beam) : b.scan.y.toNat = b.line.val := by
  have hl : b.line.val < 312 := b.line.isLt
  have hsize : UInt16.size = 65536 := rfl
  exact UInt16.toNat_ofNat_of_lt' (by omega)

theorem sub?_of_le {a b : UInt16} (h : b ≤ a) : ∃ d, sub? a b = some d ∧ d.toNat = a.toNat - b.toNat :=
  ⟨a - b, if_pos h, UInt16.toNat_sub_of_le a b h⟩

theorem divMod?_natCast (a : Nat) {b : Nat} (hb : 0 < b) :
    divMod? a b = some (((a / b : Nat) : Int), ((a % b : Nat) : Int)) := by
  rw [divMod?, if_neg (by omega), Int.ofNat_tdiv, Int.ofNat_tmod]

theorem uint16_ofInt_natCast (n : Nat) : UInt16.ofInt n = UInt16.ofNat n := by
  apply UInt16.toNat.inj
  simp [UInt16.ofInt]
  omega

/-- The beam's line is in the picture. -/
theorem le_scan_y {b : Beam} : UInt16.ofNat verticalBlanking ≤ b.scan.y ↔ b.inPictureLine := by
  rw [UInt16.le_iff_toNat_le, scan_y_toNat]
  rfl

theorem le_scan_x {b : Beam} : UInt16.ofNat horizontalBlanking ≤ b.scan.x ↔ horizontalBlanking ≤ b.clock := by
  rw [UInt16.le_iff_toNat_le, scan_x_toNat]
  rfl

theorem sub?_scan_y {b : Beam} (h : b.inPictureLine) :
    ∃ y, sub? b.scan.y (UInt16.ofNat verticalBlanking) = some y ∧ y.toNat = b.y := by
  obtain ⟨y, hy, hval⟩ := sub?_of_le (le_scan_y.mpr h)
  rw [scan_y_toNat] at hval
  exact ⟨y, hy, hval⟩

/-- A clock in the picture is a whole number of cycles, and so is as far as the picture's first column. -/
theorem sub?_scan_x {b : Beam} (h : horizontalBlanking ≤ b.clock) :
    ∃ x, sub? b.scan.x (UInt16.ofNat pictureClock) = some x ∧ x.toNat = b.x := by
  have hclock : b.clock = 4 * b.cycle.val := rfl
  have hblanking : horizontalBlanking = 63 := rfl
  have hle : UInt16.ofNat pictureClock ≤ b.scan.x := by
    rw [UInt16.le_iff_toNat_le, scan_x_toNat]
    change 64 ≤ b.clock
    omega
  obtain ⟨x, hx, hval⟩ := sub?_of_le hle
  rw [scan_x_toNat] at hval
  exact ⟨x, hx, hval⟩

/-- The counter of clocks comes to the value that ends a line, and only at its end. -/
theorem scan_x_ends (b : Beam) : b.scan.x + 4 = UInt16.ofNat clocksPerLine ↔ ¬b.cycle.val + 1 < cyclesPerLine := by
  have hc : b.cycle.val < 71 := b.cycle.isLt
  have hclock : b.clock = 4 * b.cycle.val := rfl
  have hcycles : cyclesPerLine = 71 := rfl
  have hnext : (b.scan.x + 4).toNat = (b.clock + 4) % 65536 := by
    rw [UInt16.toNat_add, scan_x_toNat]
    rfl
  have hend : (UInt16.ofNat clocksPerLine).toNat = 284 := rfl
  rw [← UInt16.toNat_inj, hnext, hend]
  omega

theorem scan_y_ends (b : Beam) : b.scan.y + 1 = UInt16.ofNat linesPerFrame ↔ ¬b.line.val + 1 < linesPerFrame := by
  have hl : b.line.val < 312 := b.line.isLt
  have hlines : linesPerFrame = 312 := rfl
  have hnext : (b.scan.y + 1).toNat = (b.line.val + 1) % 65536 := by
    rw [UInt16.toNat_add, scan_y_toNat]
    rfl
  have hend : (UInt16.ofNat linesPerFrame).toNat = 312 := rfl
  rw [← UInt16.toNat_inj, hnext, hend]
  omega

/-- Within a line only the counter of clocks moves on. -/
theorem next_within {b : Beam} (h : b.cycle.val + 1 < cyclesPerLine) :
    b.next.scan = ⟨b.scan.x + 4, b.scan.y⟩ ∧ b.next.cycle.val ≠ 0 := by
  rw [Beam.next, dif_pos h]
  refine ⟨?_, Nat.succ_ne_zero _⟩
  have hclock : UInt16.ofNat (4 * (b.cycle.val + 1)) = UInt16.ofNat (4 * b.cycle.val) + 4 := UInt16.ofNat_add _ _
  exact congrArg (Scan.mk · b.scan.y) hclock

/-- After a line the next one begins. -/
theorem next_line {b : Beam} (h : ¬b.cycle.val + 1 < cyclesPerLine) (hl : b.line.val + 1 < linesPerFrame) :
    b.next.scan = ⟨0, b.scan.y + 1⟩ ∧ b.next.cycle.val = 0 ∧ b.next.line.val = b.line.val + 1 := by
  rw [Beam.next, dif_neg h, Beam.nextLine, dif_pos hl]
  have hline : UInt16.ofNat (b.line.val + 1) = UInt16.ofNat b.line.val + 1 := UInt16.ofNat_add _ _
  exact ⟨congrArg (Scan.mk 0) hline, rfl, rfl⟩

theorem next_frame {b : Beam} (h : ¬b.cycle.val + 1 < cyclesPerLine) (hl : ¬b.line.val + 1 < linesPerFrame) :
    b.next = .start := by
  rw [Beam.next, dif_neg h, Beam.nextLine, dif_neg hl]

/-- The slots give the halves that a cell is drawn with, and only those of cells change. -/
theorem slots_cell (i : Ink) (a b : Colour) (colour bits : UInt8) :
    ∃ a' b', (i.slots a b).cell colour bits = (halves i colour bits, i.slots a' b') := by
  unfold Slots.cell halves
  rw [multicolour_eq, hires_eq]
  split_ifs
  · exact ⟨a, lowColour colour, rfl⟩
  · exact ⟨lowColour colour, b, rfl⟩

end Video

namespace Chip

/-- A line of the picture starts as it does for the beam. -/
theorem startLine?_eq (c : Chip) {b : Beam} (hscan : c.scan = b.scan) (hin : b.inPictureLine)
    (hheight : 0 < c.geometry.charHeight) :
    c.startLine? = some { c with text := Vic.startLine c.geometry c.text b.y } := by
  obtain ⟨y, hy, hval⟩ := sub?_scan_y hin
  unfold startLine? Vic.startLine
  rw [hscan, hy, ← hval]
  cases hrows : Vic.outsideRows c.geometry y.toNat with
  | true => simp [hrows]
  | false =>
    -- Below the top of the area the distance from there is a natural number.
    have hbelow : ((y.toNat : Int) - c.geometry.top) = (((y.toNat : Int) - c.geometry.top).toNat : Int) := by
      have htop : ¬(y.toNat : Int) < c.geometry.top := by simp_all [Vic.outsideRows]
      omega
    have hdiv := divMod?_natCast ((y.toNat : Int) - c.geometry.top).toNat hheight
    rw [← hbelow] at hdiv
    simp only [hrows, hdiv, Bool.false_eq_true, if_false, Option.bind_eq_bind, Option.bind_some, Option.pure_def,
      Int.toNat_natCast, ← Int.natCast_mul, uint16_ofInt_natCast]

end Chip

namespace Vic

/-- The chip with its counters and slots. -/
def chip (vic : Vic) (a b : Colour) : Chip :=
  { vic with slots := vic.ink.slots a b, scan := vic.beam.scan }

theorem reset_chip (vic : Vic) (a b : Colour) : (vic.chip a b).reset = vic.reset.chip a b := rfl

theorem derive_chip (vic : Vic) (a b : Colour) (register : Nat) (v : UInt8) :
    (vic.chip a b).derive register v = (vic.derive register v).chip a b := by
  fun_cases derive vic register v
  case case8 =>
    unfold Chip.derive
    split <;> first | rfl | contradiction
  all_goals rfl

theorem write_chip (vic : Vic) (a b : Colour) (register v : UInt8) :
    (vic.chip a b).write register v = (vic.write register v).chip a b := by
  have hstored : (vic.chip a b).stored register = vic.stored register := rfl
  unfold write Chip.write
  rw [hstored]
  split_ifs
  · rfl
  · exact derive_chip { vic with registers := vic.registers.set (register.toNat % 16) v (register_lt register) }
      a b _ v

theorem advance?_chip (vic : Vic) (a b : Colour) (h : 0 < vic.geometry.charHeight) :
    (vic.chip a b).advance? = some (vic.advance.chip a b) := by
  unfold Chip.advance? advance
  dsimp only [chip]
  by_cases hcycle : vic.beam.cycle.val + 1 < cyclesPerLine
  · obtain ⟨hscan, hne⟩ := next_within hcycle
    rw [if_neg (mt (scan_x_ends vic.beam).mp (not_not.mpr hcycle)), if_neg hne, ← hscan]
  rw [if_pos ((scan_x_ends vic.beam).mpr hcycle)]
  by_cases hline : vic.beam.line.val + 1 < linesPerFrame
  · obtain ⟨hscan, hzero, hnext⟩ := next_line hcycle hline
    have hfirst : vic.beam.next.line.val ≠ 0 := by
      rw [hnext]
      exact Nat.succ_ne_zero _
    have hin : UInt16.ofNat verticalBlanking ≤ vic.beam.scan.y + 1 ↔ vic.beam.next.inPictureLine := by
      rw [← le_scan_y, hscan]
    rw [if_neg (mt (scan_y_ends vic.beam).mp (not_not.mpr hline)), if_pos hzero, if_neg hfirst]
    by_cases hpicture : vic.beam.next.inPictureLine
    · rw [if_pos (hin.mpr hpicture), if_pos hpicture, ← hscan]
      exact Chip.startLine?_eq _ rfl hpicture h
    · rw [if_neg (mt hin.mp hpicture), if_neg hpicture, ← hscan]
  · rw [if_pos ((scan_y_ends vic.beam).mpr hline), next_frame hcycle hline]
    rfl

section Drawing

variable {μ : Type} [VideoMemory μ] (memory : μ)

theorem fetched_chip (vic : Vic) (a b : Colour) :
    ∃ a' b', (vic.chip a b).fetched memory = ({ vic with text := vic.filled memory } : Vic).chip a' b' := by
  have hfetch : (vic.chip a b).text.fetch = vic.text.fetch := rfl
  unfold Chip.fetched filled
  rw [hfetch]
  split_ifs
  · obtain ⟨a', b', hcell⟩ := slots_cell vic.ink a b (VideoMemory.colour memory vic.colourAddress)
      (VideoMemory.glyph memory (vic.glyphAddress (VideoMemory.matrix memory vic.matrixAddress)))
    exact ⟨a', b', (congrArg (fun drawn : (Group × Group) × Slots => ({ vic.chip a b with
      slots := drawn.2
      text := { vic.text with fetch := false, high := drawn.1.1, low := drawn.1.2 } } : Chip)) hcell :)⟩
  · exact ⟨a, b, rfl⟩

/-- The four pixels under the beam are in the picture. -/
theorem plot?_chip (vic : Vic) (a b : Colour) (g : Group) :
    (vic.chip a b).plot? vic.beam.offset g = some ((vic.plot g).chip a b) := by
  have h := vic.beam.offset_add_three_lt
  have hfill : fill? vic.picture vic.beam.offset g = some (vic.plot g).picture := dif_pos (by omega)
  exact (congrArg (Option.map fun picture => ({ vic.chip a b with picture } : Chip)) hfill :)

theorem drawAt?_chip (vic : Vic) (a b : Colour) :
    ∃ a' b', (vic.chip a b).drawAt? memory vic.beam.x vic.beam.offset = some ((vic.drawGroup memory).chip a' b') := by
  have hsame : (vic.chip a b).drawsBorder vic.beam.x = vic.drawsBorder := rfl
  unfold Chip.drawAt?
  rw [hsame]
  cases hborder : vic.drawsBorder with
  | true =>
    rw [if_pos rfl, drawGroup, if_pos hborder]
    exact ⟨a, b, plot?_chip vic a b _⟩
  | false =>
    obtain ⟨a', b', hfetched⟩ := fetched_chip memory vic a b
    refine ⟨a', b', ?_⟩
    rw [if_neg Bool.false_ne_true, drawGroup_inside vic memory hborder, hfetched]
    by_cases hhalf : vic.inFirstHalf = true
    · rw [if_pos hhalf]
      exact (if_pos (of_decide_eq_true hhalf)).trans (plot?_chip _ a' b' _)
    · let ended : TextLine := { vic.filled memory with column := (vic.filled memory).column + 1, fetch := true }
      rw [if_neg hhalf]
      exact (if_neg fun h => hhalf (decide_eq_true h)).trans (plot?_chip { vic with text := ended } a' b' ended.low)

theorem drawGroup?_chip (vic : Vic) (a b : Colour) (h : vic.beam.inPicture) :
    ∃ a' b', (vic.chip a b).drawGroup? memory = some ((vic.drawGroup memory).chip a' b') := by
  obtain ⟨x, hx, hxval⟩ := sub?_scan_x h.2
  obtain ⟨y, hy, hyval⟩ := sub?_scan_y h.1
  obtain ⟨a', b', hdraw⟩ := drawAt?_chip memory vic a b
  have hscan : (vic.chip a b).scan = vic.beam.scan := rfl
  have hstart : y.toNat * pictureWidth + x.toNat = vic.beam.offset := by rw [hxval, hyval, Beam.offset]
  refine ⟨a', b', ?_⟩
  unfold Chip.drawGroup?
  simp only [hscan, hx, hy, Option.bind_eq_bind, Option.bind_some, hstart]
  rw [hxval, hdraw]

/-- A cycle. -/
theorem cycle?_chip (vic : Vic) (a b : Colour) (h : 0 < vic.geometry.charHeight) :
    ∃ a' b', (vic.chip a b).cycle? memory = some ((vic.cycled memory).chip a' b') := by
  have hin : UInt16.ofNat verticalBlanking ≤ (vic.advance.chip a b).scan.y ∧
      UInt16.ofNat horizontalBlanking ≤ (vic.advance.chip a b).scan.x ↔ vic.advance.beam.inPicture :=
    and_congr le_scan_y le_scan_x
  unfold Chip.cycle? cycled draw
  rw [advance?_chip vic a b h, Option.bind_eq_bind, Option.bind_some]
  simp only [hin]
  split_ifs with hpicture
  · exact drawGroup?_chip memory vic.advance a b hpicture
  · exact ⟨a, b, rfl⟩

theorem tick?_chip (vic : Vic) (a b : Colour) (h : 0 < vic.geometry.charHeight) (n : Nat) :
    ∃ a' b', (vic.chip a b).tick? memory n = some ((vic.tick memory n).chip a' b') := by
  induction n generalizing vic a b with
  | zero => exact ⟨a, b, rfl⟩
  | succ n ih =>
    obtain ⟨a', b', hcycle⟩ := cycle?_chip memory vic a b h
    obtain ⟨a'', b'', htick⟩ := ih (vic.cycled memory) a' b' (by rwa [cycled_geometry])
    refine ⟨a'', b'', ?_⟩
    rw [Chip.tick?, hcycle, Option.bind_eq_bind, Option.bind_some, htick]
    rfl

end Drawing

/-! ### Runs -/

theorem write_tall {vic : Vic} (h : 0 < vic.geometry.charHeight) (register v : UInt8) :
    0 < (vic.write register v).geometry.charHeight := by
  unfold write derive
  dsimp only
  split_ifs
  · exact h
  · split
    case h_4 =>
      unfold Geometry.setRows
      dsimp only
      split_ifs <;> decide
    all_goals exact h

/-- Characters have a height, so that a line has a row. -/
theorem Reachable.tall {vic : Vic} (h : Reachable vic) : 0 < vic.geometry.charHeight := by
  induction h with
  | new | reset => exact Nat.zero_lt_succ 7
  | write _ register v ih => exact write_tall ih register v
  | tick _ memory cycles ih => rwa [tick_geometry]
  | takeFrameDone _ ih => exact ih

theorem perform_tall {vic : Vic} (h : 0 < vic.geometry.charHeight) (o : Operation) :
    0 < (vic.perform o).2.geometry.charHeight := by
  cases o with
  | write register v => exact write_tall h register v
  | read register => exact h
  | tick memory cycles =>
    change 0 < (vic.tick memory cycles).geometry.charHeight
    rwa [tick_geometry]
  | takeFrameDone => exact h

theorem perform?_chip {vic : Vic} (h : 0 < vic.geometry.charHeight) (a b : Colour) (o : Operation) :
    ∃ a' b', (vic.chip a b).perform? o = some ((vic.perform o).2.chip a' b') := by
  cases o with
  | write register v => exact ⟨a, b, congrArg some (write_chip vic a b register v)⟩
  | read register => exact ⟨a, b, rfl⟩
  | tick memory cycles => exact tick?_chip memory vic a b h cycles
  | takeFrameDone => exact ⟨a, b, rfl⟩

/-- Whatever is done to a chip, no operation is without a result. -/
theorem run?_chip {vic : Vic} (h : 0 < vic.geometry.charHeight) (a b : Colour) (os : List Operation) :
    ∃ a' b', (vic.chip a b).run? os = some ((vic.run os).2.chip a' b') := by
  induction os generalizing vic a b with
  | nil => exact ⟨a, b, rfl⟩
  | cons o os ih =>
    obtain ⟨a', b', hperform⟩ := perform?_chip h a b o
    obtain ⟨a'', b'', hrun⟩ := ih (perform_tall h o) a' b'
    refine ⟨a'', b'', ?_⟩
    rw [Chip.run?, hperform, Option.bind_eq_bind, Option.bind_some, hrun]
    rfl

end Vic
end Vic20
