import Vic20.Proofs.Video.Chip
import Vic20.Proofs.Video.Renewal

/-! What the registers say of geometry and colours. These are worked out a register at a time, some from two registers
and from both sides, and a write that changes nothing is skipped. Once the register that a value comes from has
changed, the value is the one that the registers now stand for, and neither writes to others nor drawing disturb it
(`Follows.run`). So when all of them have changed it does not matter by which writes. -/

namespace Vic20

namespace Video

/-! ### The values that registers stand for -/

def leftOf (r0 : UInt8) : Int := ((r0.toNat % 128 : Nat) - 7) * 4

def topOf (r1 : UInt8) : Int := (r1.toNat - 14) * 2

def columnsOf (r2 : UInt8) : Nat := min (r2.toNat % 128) 32

def heightOf (r3 : UInt8) : Nat := if r3.toNat % 2 = 0 then 8 else 16

def rowsOf (r3 : UInt8) : Nat := r3.toNat / 2 % 64

def glyphsOf (r5 : UInt8) : UInt16 := UInt16.ofNat (1024 * (r5.toNat % 16))

/-- Bit 9 of the matrix address is bit 7 of register 2, bits 10 to 12 are bits 4 to 6 of register 5, and bit 15 is
set when bit 7 of register 5 is not. -/
def matrixOf (r2 r5 : UInt8) : UInt16 :=
  UInt16.ofNat (512 * (r2.toNat / 128) + 1024 * (r5.toNat / 16 % 8) + 32768 * (1 - r5.toNat / 128))

def invertOf (rF : UInt8) : UInt8 := if rF.toNat / 8 % 2 = 0 then 0xFF else 0

def Geometry.ofRegisters (r : UInt8 → UInt8) : Geometry where
  columns := columnsOf (r 2)
  rows := rowsOf (r 3)
  charHeight := heightOf (r 3)
  areaHeight := rowsOf (r 3) * heightOf (r 3)
  left := leftOf (r 0)
  right := leftOf (r 0) + 8 * columnsOf (r 2)
  top := topOf (r 1)
  matrix := matrixOf (r 2) (r 5)
  glyphs := glyphsOf (r 5)

def Ink.ofRegisters (r : UInt8 → UInt8) : Ink where
  background := highColour (r 0xF)
  border := lowColour (r 0xF)
  auxiliary := highColour (r 0xE)
  invert := invertOf (r 0xF)

theorem Geometry.eq_ofRegisters {g : Geometry} {r : UInt8 → UInt8} (hleft : g.left = leftOf (r 0x0))
    (htop : g.top = topOf (r 0x1)) (hcolumns : g.columns = columnsOf (r 0x2))
    (hrows : g.charHeight = heightOf (r 0x3) ∧ g.rows = rowsOf (r 0x3) ∧ g.areaHeight = g.rows * g.charHeight)
    (hglyphs : g.glyphs = glyphsOf (r 0x5)) (hmatrix : g.matrix = matrixOf (r 0x2) (r 0x5))
    (hright : g.right = g.left + 8 * g.columns) : g = Geometry.ofRegisters r := by
  obtain ⟨columns, rows, charHeight, areaHeight, left, right, top, matrix, glyphs⟩ := g
  dsimp only at hleft htop hcolumns hrows hglyphs hmatrix hright
  obtain ⟨rfl, rfl, rfl⟩ := hrows
  subst hleft htop hcolumns hglyphs hmatrix hright
  rfl

theorem Ink.eq_ofRegisters {i : Ink} {r : UInt8 → UInt8} (hauxiliary : i.auxiliary = highColour (r 0xE))
    (hscreen : i.background = highColour (r 0xF) ∧ i.border = lowColour (r 0xF) ∧ i.invert = invertOf (r 0xF)) :
    i = Ink.ofRegisters r := by
  obtain ⟨background, border, auxiliary, invert⟩ := i
  obtain ⟨rfl, rfl, rfl⟩ := hscreen
  subst hauxiliary
  rfl

theorem setGlyphs_glyphs (g : Geometry) (v : UInt8) : (g.setGlyphs v).glyphs = glyphsOf v := by
  change (v.toUInt16 &&& 0x0F) <<< 10 = glyphsOf v
  obtain ⟨v⟩ := v
  revert v
  decide +kernel

theorem setRows_charHeight (g : Geometry) (v : UInt8) : (g.setRows v).charHeight = heightOf v := by
  change (if v &&& 0x01 != 0 then 16 else 8) = heightOf v
  obtain ⟨v⟩ := v
  revert v
  decide +kernel

theorem setScreen_invert (i : Ink) (v : UInt8) : (i.setScreen v).invert = invertOf v := by
  change (if v &&& 0x08 == 0 then 0xFF else 0x00) = invertOf v
  obtain ⟨v⟩ := v
  revert v
  decide +kernel

theorem matrixAddress_eq (r2 r5 : UInt8) : Geometry.matrixAddress r2 r5 = matrixOf r2 r5 := by
  have hlow : r2.toUInt16 &&& 0x80 = UInt16.ofNat (128 * (r2.toNat / 128)) := by
    obtain ⟨v⟩ := r2
    revert v
    decide +kernel
  have hhigh : ∀ k < 2, (UInt16.ofNat (128 * k)) <<< 2 ||| (r5.toUInt16 &&& 0x70) <<< 6 |||
      (~~~r5.toUInt16 &&& 0x80) <<< 8 =
        UInt16.ofNat (512 * k + 1024 * (r5.toNat / 16 % 8) + 32768 * (1 - r5.toNat / 128)) := by
    obtain ⟨v⟩ := r5
    revert v
    decide +kernel
  have hr2 := r2.toNat_lt
  rw [Geometry.matrixAddress, hlow, hhigh _ (by omega), matrixOf]

end Video

namespace Vic

open Video

instance (registers : List Nat) (vic : Vic) (o : Operation) : Decidable (o.Changes registers vic) := by
  cases o <;> unfold Operation.Changes <;> infer_instance

instance decidableRewrites (registers : List Nat) : (vic : Vic) → (os : List Operation) →
    Decidable (vic.Rewrites registers os)
  | _, [] => isFalse id
  | vic, o :: os =>
    have := decidableRewrites registers (vic.perform o).2 os
    inferInstanceAs (Decidable (o.Changes registers vic ∨ (vic.perform o).2.Rewrites registers os))

/-! ### Writes, one at a time -/

/-- A write to register `k`, also of the value that it holds. -/
def assign (vic : Vic) {k : Nat} (hk : k < 16) (x : UInt8) : Vic :=
  ({ vic with registers := vic.registers.set k x } : Vic).derive k x

theorem write_eq_assign (vic : Vic) (register x : UInt8) :
    vic.write register x =
      if vic.stored register == x then vic else vic.assign (register_lt register) x := rfl

theorem assign_registers (vic : Vic) {k : Nat} (hk : k < 16) (x : UInt8) :
    (vic.assign hk x).registers = vic.registers.set k x := by
  unfold assign derive
  split <;> rfl

theorem stored_assign (vic : Vic) {k : Nat} (hk : k < 16) (x register : UInt8) :
    (vic.assign hk x).stored register = if k = register.toNat % 16 then x else vic.stored register := by
  have hget : (vic.assign hk x).stored register = (vic.assign hk x).registers[register.toNat % 16] := rfl
  simp only [hget, assign_registers, Vector.getElem_set]
  rfl

/-- A relation between the registers and what is worked out from them, which a write to some of the registers brings
about and the others keep. -/
structure Follows (registers : List Nat) (Q : (UInt8 → UInt8) → Geometry → Ink → Prop) : Prop where
  sets (vic : Vic) {k : Nat} (hk : k < 16) (h : k ∈ registers) (x : UInt8) :
    Q (vic.assign hk x).stored (vic.assign hk x).geometry (vic.assign hk x).ink
  keeps (vic : Vic) {k : Nat} (hk : k < 16) (h : k ∉ registers) (x : UInt8) (hq : Q vic.stored vic.geometry vic.ink) :
    Q (vic.assign hk x).stored (vic.assign hk x).geometry (vic.assign hk x).ink

section Follows

variable {registers : List Nat} {Q : (UInt8 → UInt8) → Geometry → Ink → Prop} {vic : Vic}

theorem Follows.perform (hQ : Follows registers Q) (o : Operation)
    (h : Q vic.stored vic.geometry vic.ink ∨ o.Changes registers vic) :
    Q (vic.perform o).2.stored (vic.perform o).2.geometry (vic.perform o).2.ink := by
  cases o with
  | write register x =>
    change Q (vic.write register x).stored (vic.write register x).geometry (vic.write register x).ink
    rw [write_eq_assign]
    by_cases hsame : (vic.stored register == x) = true
    · rw [if_pos hsame]
      exact h.resolve_right fun hc => hc.2 (by simpa using hsame)
    · rw [if_neg hsame]
      by_cases hr : register.toNat % 16 ∈ registers
      · exact hQ.sets vic _ hr x
      · exact hQ.keeps vic _ hr x (h.resolve_right fun hc => hr hc.1)
  | read | takeFrameDone => exact h.resolve_right id
  | tick memory cycles =>
    have hstored : (vic.tick memory cycles).stored = vic.stored := by
      unfold stored
      rw [tick_registers]
    change Q (vic.tick memory cycles).stored (vic.tick memory cycles).geometry (vic.tick memory cycles).ink
    rw [hstored, tick_geometry, tick_ink]
    exact h.resolve_right id

/-- Once one of the registers has changed, the relation holds. -/
theorem Follows.run (hQ : Follows registers Q) (os : List Operation)
    (h : Q vic.stored vic.geometry vic.ink ∨ vic.Rewrites registers os) :
    Q (vic.run os).2.stored (vic.run os).2.geometry (vic.run os).2.ink := by
  induction os generalizing vic with
  | nil => exact h.resolve_right id
  | cons o os ih =>
    refine ih ?_
    rcases h with hq | hchanges | hrewrites
    · exact .inl (hQ.perform o (.inl hq))
    · exact .inl (hQ.perform o (.inr hchanges))
    · exact .inr hrewrites

/-- A relation with what a single register holds. -/
theorem Follows.single (k₀ : Nat) (h₀ : k₀ < 16) (R : UInt8 → Geometry → Ink → Prop)
    (sets : ∀ (vic : Vic) (x : UInt8), R x (vic.derive k₀ x).geometry (vic.derive k₀ x).ink)
    (keeps : ∀ (vic : Vic) (k : Nat), k ∉ [k₀] → ∀ x v : UInt8, R v vic.geometry vic.ink →
      R v (vic.derive k x).geometry (vic.derive k x).ink) :
    Follows [k₀] fun r g i => R (r (UInt8.ofNat k₀)) g i := by
  have hplace : (UInt8.ofNat k₀).toNat % 16 = k₀ := by
    rw [UInt8.toNat_ofNat_of_lt' (Nat.lt_trans h₀ (by decide)), Nat.mod_eq_of_lt h₀]
  refine ⟨fun vic k hk h x => ?_, fun vic k hk h x hq => ?_⟩
  · obtain rfl := List.mem_singleton.mp h
    rw [stored_assign, if_pos hplace.symm]
    exact sets _ x
  · rw [stored_assign, hplace, if_neg (by simpa using h)]
    exact keeps _ k h x _ hq

end Follows

/-! ### What follows from each register -/

/-- What a write to register `k` leaves of geometry and colours. -/
structure Spares (k : Nat) (g g' : Geometry) (i i' : Ink) : Prop where
  left : k ∉ [0x0] → g'.left = g.left
  top : k ∉ [0x1] → g'.top = g.top
  columns : k ∉ [0x2] → g'.columns = g.columns
  charHeight : k ∉ [0x3] → g'.charHeight = g.charHeight
  rows : k ∉ [0x3] → g'.rows = g.rows
  areaHeight : k ∉ [0x3] → g'.areaHeight = g.areaHeight
  glyphs : k ∉ [0x5] → g'.glyphs = g.glyphs
  matrix : k ∉ [0x2, 0x5] → g'.matrix = g.matrix
  right : k ∉ [0x0, 0x2] → g'.right = g.right
  auxiliary : k ∉ [0xE] → i'.auxiliary = i.auxiliary
  background : k ∉ [0xF] → i'.background = i.background
  border : k ∉ [0xF] → i'.border = i.border
  invert : k ∉ [0xF] → i'.invert = i.invert

theorem derive_spares (vic : Vic) (k : Nat) (x : UInt8) :
    Spares k vic.geometry (vic.derive k x).geometry vic.ink (vic.derive k x).ink := by
  unfold derive updateMatrix Geometry.setLeft Geometry.setTop Geometry.setColumns Geometry.setRows Geometry.setGlyphs
  split <;> constructor <;> intro h <;> first | exact absurd (by decide) h | rfl

theorem assign_spares (vic : Vic) {k : Nat} (hk : k < 16) (x : UInt8) :
    Spares k vic.geometry (vic.assign hk x).geometry vic.ink (vic.assign hk x).ink :=
  derive_spares { vic with registers := vic.registers.set k x } k x

theorem follows_left : Follows [0x0] fun r g _ => g.left = leftOf (r 0x0) := by
  refine Follows.single 0x0 (by decide) (fun v g _ => g.left = leftOf v) (fun _ _ => rfl) fun vic k h x v hv => ?_
  rw [(derive_spares vic k x).left h, hv]

theorem follows_top : Follows [0x1] fun r g _ => g.top = topOf (r 0x1) := by
  refine Follows.single 0x1 (by decide) (fun v g _ => g.top = topOf v) (fun _ _ => rfl) fun vic k h x v hv => ?_
  rw [(derive_spares vic k x).top h, hv]

theorem follows_columns : Follows [0x2] fun r g _ => g.columns = columnsOf (r 0x2) := by
  refine Follows.single 0x2 (by decide) (fun v g _ => g.columns = columnsOf v) (fun _ _ => rfl)
    fun vic k h x v hv => ?_
  rw [(derive_spares vic k x).columns h, hv]

theorem follows_rows : Follows [0x3] fun r g _ =>
    g.charHeight = heightOf (r 0x3) ∧ g.rows = rowsOf (r 0x3) ∧ g.areaHeight = g.rows * g.charHeight := by
  refine Follows.single 0x3 (by decide)
    (fun v g _ => g.charHeight = heightOf v ∧ g.rows = rowsOf v ∧ g.areaHeight = g.rows * g.charHeight)
    (fun _ x => ⟨setRows_charHeight _ x, rfl, rfl⟩) fun vic k h x v hv => ?_
  have hspares := derive_spares vic k x
  rw [hspares.charHeight h, hspares.rows h, hspares.areaHeight h]
  exact hv

theorem follows_glyphs : Follows [0x5] fun r g _ => g.glyphs = glyphsOf (r 0x5) := by
  refine Follows.single 0x5 (by decide) (fun v g _ => g.glyphs = glyphsOf v)
    (fun vic x => setGlyphs_glyphs vic.geometry x) fun vic k h x v hv => ?_
  rw [(derive_spares vic k x).glyphs h, hv]

theorem follows_auxiliary : Follows [0xE] fun r _ i => i.auxiliary = highColour (r 0xE) := by
  refine Follows.single 0xE (by decide) (fun v _ i => i.auxiliary = highColour v) (fun _ _ => rfl)
    fun vic k h x v hv => ?_
  rw [(derive_spares vic k x).auxiliary h, hv]

theorem follows_screen : Follows [0xF] fun r _ i =>
    i.background = highColour (r 0xF) ∧ i.border = lowColour (r 0xF) ∧ i.invert = invertOf (r 0xF) := by
  refine Follows.single 0xF (by decide)
    (fun v _ i => i.background = highColour v ∧ i.border = lowColour v ∧ i.invert = invertOf v)
    (fun _ x => ⟨rfl, rfl, setScreen_invert _ x⟩) fun vic k h x v hv => ?_
  have hspares := derive_spares vic k x
  rw [hspares.background h, hspares.border h, hspares.invert h]
  exact hv

/-- Either register sets the address from both. -/
theorem follows_matrix : Follows [0x2, 0x5] fun r g _ => g.matrix = matrixOf (r 0x2) (r 0x5) where
  sets := by
    intro vic k hk h x
    obtain rfl | rfl : k = 0x2 ∨ k = 0x5 := by simpa using h
    · exact matrixAddress_eq _ _
    · exact matrixAddress_eq _ _
  keeps := by
    intro vic k hk h x hq
    obtain ⟨h2, h5⟩ : k ≠ 0x2 ∧ k ≠ 0x5 := by simpa using h
    have hr2 : (vic.assign hk x).stored 0x2 = vic.stored 0x2 := (stored_assign vic hk x 0x2).trans (if_neg h2)
    have hr5 : (vic.assign hk x).stored 0x5 = vic.stored 0x5 := (stored_assign vic hk x 0x5).trans (if_neg h5)
    rw [(assign_spares vic hk x).matrix h, hr2, hr5, hq]

/-- The right edge is as far from the left one as the columns reach. -/
theorem follows_right : Follows [0x0, 0x2] fun _ g _ => g.right = g.left + 8 * g.columns where
  sets := by
    intro vic k hk h x
    obtain rfl | rfl : k = 0x0 ∨ k = 0x2 := by simpa using h
    · exact congrArg (_ + ·) (Int.mul_comm _ _)
    · exact congrArg (_ + ·) (Int.mul_comm _ _)
  keeps := by
    intro vic k hk h x hq
    obtain ⟨h0, h2⟩ : k ≠ 0x0 ∧ k ≠ 0x2 := by simpa using h
    have hspares := assign_spares vic hk x
    rw [hspares.right h, hspares.left (by simpa using h0), hspares.columns (by simpa using h2), hq]

theorem run_append (vic : Vic) (os ps : List Operation) : (vic.run (os ++ ps)).2 = ((vic.run os).2.run ps).2 := by
  induction os generalizing vic with
  | nil => rfl
  | cons o os ih => exact ih (vic.perform o).2

theorem rewrites_mono {registers registers' : List Nat} (h : registers ⊆ registers') {vic : Vic} {os : List Operation}
    (hr : vic.Rewrites registers os) : vic.Rewrites registers' os := by
  induction os generalizing vic with
  | nil => exact hr
  | cons o os ih =>
    rcases hr with hchanges | hrest
    · cases o with
      | write register x => exact .inl ⟨h hchanges.1, hchanges.2⟩
      | read | tick | takeFrameDone => exact hchanges.elim
    · exact .inr (ih hrest)

/-- Of the two registers of the matrix address, and of those of the right edge, either change will do; the columns need
none. -/
theorem run_geometry {u : Vic} {os : List Operation} (h : ∀ k ∈ [0x0, 0x1, 0x2, 0x3, 0x5], u.reset.Rewrites [k] os) :
    (u.reset.run os).2.geometry = Geometry.ofRegisters (u.reset.run os).2.stored := by
  have hboth {registers : List Nat} (k : Nat) (hk : k ∈ [0x0, 0x1, 0x2, 0x3, 0x5]) (hin : k ∈ registers) :
      u.reset.Rewrites registers os :=
    rewrites_mono (List.cons_subset.mpr ⟨hin, List.nil_subset _⟩) (h k hk)
  exact Geometry.eq_ofRegisters (follows_left.run os (.inr (h _ (by decide))))
    (follows_top.run os (.inr (h _ (by decide)))) (follows_columns.run os (.inl rfl))
    (follows_rows.run os (.inr (h _ (by decide)))) (follows_glyphs.run os (.inr (h _ (by decide))))
    (follows_matrix.run os (.inr (hboth 0x2 (by decide) (by decide))))
    (follows_right.run os (.inr (hboth 0x0 (by decide) (by decide))))

theorem run_ink {u : Vic} {os : List Operation} (h : ∀ k ∈ [0xE, 0xF], u.reset.Rewrites [k] os) :
    (u.reset.run os).2.ink = Ink.ofRegisters (u.reset.run os).2.stored :=
  Ink.eq_ofRegisters (follows_auxiliary.run os (.inr (h _ (by decide))))
    (follows_screen.run os (.inr (h _ (by decide))))

/-- Geometry and colours follow from the registers. After a reset, and whatever is written and drawn since, each value
is the one that the registers stand for once a register that it comes from has changed; the columns are so from the
start. The same holds of the slots of the chip, though drawing overwrites two of them. When all of these registers
have changed, they alone tell the geometry and the colours. -/
theorem derived_exact (u : Vic) (a b : Colour) (os : List Operation) :
    let vic := (u.reset.run os).2
    let g := vic.geometry
    let changed (registers : List Nat) : Prop := u.reset.Rewrites registers os
    ((changed [0x0] → g.left = leftOf (vic.stored 0x0)) ∧
      (changed [0x1] → g.top = topOf (vic.stored 0x1)) ∧
      g.columns = columnsOf (vic.stored 0x2) ∧
      (changed [0x3] → g.charHeight = heightOf (vic.stored 0x3) ∧ g.rows = rowsOf (vic.stored 0x3) ∧
        g.areaHeight = g.rows * g.charHeight) ∧
      (changed [0x5] → g.glyphs = glyphsOf (vic.stored 0x5)) ∧
      (changed [0x2, 0x5] → g.matrix = matrixOf (vic.stored 0x2) (vic.stored 0x5)) ∧
      (changed [0x0, 0x2] → g.right = g.left + 8 * g.columns)) ∧
    (∃ c, (u.chip a b).reset.run? os = some c ∧ c.registers = vic.registers ∧ c.geometry = g ∧
      (changed [0xE] → c.slots.multi[3]? = some (highColour (vic.stored 0xE))) ∧
      (changed [0xF] → c.slots.border = lowColour (vic.stored 0xF) ∧ c.slots.multi[1]? = some c.slots.border ∧
        c.slots.multi[0]? = some (highColour (vic.stored 0xF)) ∧
        c.slots.hires[0]? = some (highColour (vic.stored 0xF)) ∧ c.slots.invert = invertOf (vic.stored 0xF))) ∧
    ((∀ k ∈ [0x0, 0x1, 0x2, 0x3, 0x5, 0xE, 0xF], changed [k]) →
      g = Geometry.ofRegisters vic.stored ∧ vic.ink = Ink.ofRegisters vic.stored) := by
  intro vic g changed
  have htall : 0 < u.reset.geometry.charHeight := Nat.zero_lt_succ 7
  obtain ⟨a', b', hrun⟩ := run?_chip htall a b os
  rw [← reset_chip] at hrun
  refine ⟨⟨fun h => follows_left.run os (.inr h), fun h => follows_top.run os (.inr h),
    follows_columns.run os (.inl rfl), fun h => follows_rows.run os (.inr h), fun h => follows_glyphs.run os (.inr h),
    fun h => follows_matrix.run os (.inr h), fun h => follows_right.run os (.inr h)⟩,
    ⟨vic.chip a' b', hrun, rfl, rfl, fun h => ?_, fun h => ?_⟩, fun hall => ⟨?_, ?_⟩⟩
  · exact congrArg some (follows_auxiliary.run os (.inr h))
  · obtain ⟨hbackground, hborder, hinvert⟩ := follows_screen.run os (.inr h)
    exact ⟨hborder, rfl, congrArg some hbackground, congrArg some hbackground, hinvert⟩
  · exact run_geometry fun k hk => hall k (List.mem_append_left [0xE, 0xF] hk)
  · exact run_ink fun k hk => hall k (List.mem_append_right [0x0, 0x1, 0x2, 0x3, 0x5] hk)

/-- The same registers written in two orders, one of them with values that do not last and on a chip that has shown
another screen, and a frame drawn. -/
theorem derived_exact_reordered :
    let os : List Operation := [.write 0xF 0x2E, .write 0x5 0xF0, .write 0x2 0x96, .write 0x3 0x2E, .write 0x0 0x0C,
      .write 0x1 0x26, .write 0xE 0x50, .tick stripes 22152]
    let ps : List Operation := [.write 0x0 0x7F, .write 0x2 0x05, .write 0x1 0x26, .write 0xE 0x50, .write 0x3 0x2E,
      .write 0x2 0x96, .write 0x5 0xF0, .write 0x0 0x0C, .write 0xF 0x2E]
    let old := (coloured.reset.run os).2
    let fresh := (Vic.new.run ps).2
    (∀ k ∈ [0x0, 0x1, 0x2, 0x3, 0x5, 0xE, 0xF], coloured.reset.Rewrites [k] os ∧ Vic.new.Rewrites [k] ps) ∧
      old.geometry = fresh.geometry ∧ old.ink = fresh.ink ∧ fresh.geometry.right = 196 := by
  intro os ps old fresh
  have hos : ∀ k ∈ [0x0, 0x1, 0x2, 0x3, 0x5, 0xE, 0xF], coloured.reset.Rewrites [k] os := by decide
  have hps : ∀ k ∈ [0x0, 0x1, 0x2, 0x3, 0x5, 0xE, 0xF], Vic.new.Rewrites [k] ps := by decide
  obtain ⟨hgeometry, hink⟩ := (derived_exact coloured black black os).2.2 hos
  obtain ⟨hgeometry', hink'⟩ := (derived_exact .new black black ps).2.2 hps
  have hregisters : old.registers = fresh.registers := by
    have hdrawn (vic : Vic) (n : Nat) : (vic.run [.tick stripes n]).2.registers = vic.registers :=
      tick_registers vic stripes n
    have hold := run_append coloured.reset (os.take 7) [.tick stripes 22152]
    exact (congrArg registers hold).trans ((hdrawn _ _).trans (by decide))
  have hstored : old.stored = fresh.stored := by
    unfold stored
    rw [hregisters]
  refine ⟨fun k hk => ⟨hos k hk, hps k hk⟩, ?_, ?_, by decide⟩
  · exact hgeometry.trans ((congrArg Geometry.ofRegisters hstored).trans hgeometry'.symm)
  · exact hink.trans ((congrArg Ink.ofRegisters hstored).trans hink'.symm)

end Vic
end Vic20
