import Mathlib.Tactic.SplitIfs
import Vic20.Memory.Basic

/-! What memory stores at its places. Each address has one place at most and shares it with no other address, so
a write reaches what is stored there and nothing else. What is stored in an expansion block can be hidden by a
cartridge; it is written to all the same. -/

namespace Vic20

namespace Place

/-- Where a window begins. -/
def start (slot : Fin 4) : Nat := if slot = lastSlot then 0xA000 else 0x2000 + 0x2000 * slot.val

/-- The places of the memory map, each with the addresses it is for. -/
inductive At (n : Nat) : Place → Prop
  | low (h : n < 0x0400) : At n (.low ⟨n, h⟩)
  | block3K (h : 0x0400 ≤ n) (h' : n < 0x1000) : At n (.block3K ⟨n - 0x0400, by omega⟩)
  | high (h : 0x1000 ≤ n) (h' : n < 0x2000) : At n (.high ⟨n - 0x1000, by omega⟩)
  | window (slot : Fin 4) (h : start slot ≤ n) (h' : n < start slot + 0x2000) :
    At n (.window slot ⟨n - start slot, by omega⟩)
  | character (h : 0x8000 ≤ n) (h' : n < 0x9000) : At n (.character ⟨n - 0x8000, by omega⟩)
  | colour (h : 0x9400 ≤ n) (h' : n < 0x9800) : At n (.colour ⟨n - 0x9400, by omega⟩)
  | basic (h : 0xC000 ≤ n) (h' : n < 0xE000) : At n (.basic ⟨n - 0xC000, by omega⟩)
  | kernal (h : 0xE000 ≤ n) (h' : n < 0x10000) : At n (.kernal ⟨n - 0xE000, by omega⟩)
  | nothing (h : 0x9000 ≤ n ∧ n < 0x9400 ∨ 0x9800 ≤ n ∧ n < 0xA000) : At n .open

theorem at_ofNat (n : Nat) (h : n < 0x10000) : At n (ofNat n h) := by
  unfold ofNat
  by_cases h₁ : n < 0x0400
  · rw [dif_pos h₁]
    exact .low h₁
  rw [dif_neg h₁]
  by_cases h₂ : n < 0x1000
  · rw [dif_pos h₂]
    exact .block3K (by omega) h₂
  rw [dif_neg h₂]
  by_cases h₃ : n < 0x2000
  · rw [dif_pos h₃]
    exact .high (by omega) h₃
  rw [dif_neg h₃]
  by_cases h₄ : n < 0x4000
  · rw [dif_pos h₄]
    exact .window firstSlot (Nat.le_of_not_lt h₃) h₄
  rw [dif_neg h₄]
  by_cases h₅ : n < 0x6000
  · rw [dif_pos h₅]
    exact .window secondSlot (Nat.le_of_not_lt h₄) h₅
  rw [dif_neg h₅]
  by_cases h₆ : n < 0x8000
  · rw [dif_pos h₆]
    exact .window thirdSlot (Nat.le_of_not_lt h₅) h₆
  rw [dif_neg h₆]
  by_cases h₇ : n < 0x9000
  · rw [dif_pos h₇]
    exact .character (by omega) h₇
  rw [dif_neg h₇]
  by_cases h₈ : n < 0x9400
  · rw [dif_pos h₈]
    exact .nothing (by omega)
  rw [dif_neg h₈]
  by_cases h₉ : n < 0x9800
  · rw [dif_pos h₉]
    exact .colour (by omega) h₉
  rw [dif_neg h₉]
  by_cases h₁₀ : n < 0xA000
  · rw [dif_pos h₁₀]
    exact .nothing (by omega)
  rw [dif_neg h₁₀]
  by_cases h₁₁ : n < 0xC000
  · rw [dif_pos h₁₁]
    exact .window lastSlot (Nat.le_of_not_lt h₁₀) h₁₁
  rw [dif_neg h₁₁]
  by_cases h₁₂ : n < 0xE000
  · rw [dif_pos h₁₂]
    exact .basic (by omega) h₁₂
  rw [dif_neg h₁₂]
  exact .kernal (by omega) h

theorem at_ofAddress (a : UInt16) : At a.toNat (ofAddress a) := at_ofNat a.toNat a.toNat_lt

/-- The address of a place. -/
def number : Place → Nat
  | low i => i.val
  | block3K i => 0x0400 + i.val
  | high i => 0x1000 + i.val
  | window slot i => start slot + i.val
  | character i => 0x8000 + i.val
  | colour i => 0x9400 + i.val
  | basic i => 0xC000 + i.val
  | kernal i => 0xE000 + i.val
  | .open => 0

theorem At.number {n : Nat} {p : Place} (h : At n p) (hp : p ≠ .open) : p.number = n := by
  cases h with
  | low h => rfl
  | nothing h => exact absurd rfl hp
  | block3K h _ | high h _ | window _ h _ | character h _ | colour h _ | basic h _ | kernal h _ =>
    exact Nat.add_sub_of_le h

/-- Two addresses share no place. -/
theorem ofAddress_inj {a b : UInt16} (h : ofAddress a = ofAddress b) (hp : ofAddress a ≠ .open) : a = b := by
  have ha := (at_ofAddress a).number hp
  have hb := (at_ofAddress b).number (h ▸ hp)
  rw [h, hb] at ha
  exact (UInt16.toNat_inj.1 ha).symm

/-- The expansion block that a place is in. -/
def block : Place → Option Nat
  | block3K _ => some 0
  | window slot _ => some (slot.val + 1)
  | _ => none

end Place

namespace Memory

variable {m m' : Memory}

/-- What is stored at a place, if it is in RAM. -/
def stored (m : Memory) : Place → Option UInt8
  | .low i => some (m.low.read i)
  | .block3K i => m.block3K.map (·.read i)
  | .high i => some (m.high.read i)
  | .window slot i => (m.blocks.get slot).map (·.read i)
  | .colour i => some (m.colours.read i)
  | .character _ | .basic _ | .kernal _ | .open => none

theorem get_eq_getElem {α : Type} {n : Nat} (xs : Vector α n) (i : Fin n) : xs.get i = xs[i.val] := rfl

theorem read_write_block {size : Nat} (b : Block size) (i j : Fin size) (v : UInt8) :
    (b.write i v).read j = if i = j then v else b.read j := by
  simp only [Block.read, Block.write, get_eq_getElem, Vector.getElem_set, Fin.ext_iff]

theorem get_modify {α : Type} {n : Nat} (xs : Vector α n) (i j : Fin n) (f : α → α)
    (h : (xs.toArray.modify i.val f).size = n) :
    (⟨xs.toArray.modify i.val f, h⟩ : Vector α n).get j = if i = j then f (xs.get j) else xs.get j := by
  simp only [get_eq_getElem, Vector.getElem_mk, Array.getElem_modify, Vector.getElem_toArray, Fin.ext_iff]

/-- A write reaches its own place, where there is RAM, and no other. -/
theorem stored_write (m : Memory) (a : UInt16) (v : UInt8) (p : Place) :
    (m.write a v).stored p =
      if Place.ofAddress a = p then (m.stored p).map fun _ => v else m.stored p := by
  unfold write
  generalize Place.ofAddress a = q
  cases q with
  | low i | high i | colour i => cases p <;> simp [stored, read_write_block, apply_ite some]
  | block3K i =>
    cases p with
    | block3K j => cases h : m.block3K <;> simp [stored, h, read_write_block, apply_ite some]
    | _ => simp [stored]
  | window slot i =>
    cases p with
    | window slot' j =>
      simp only [stored, get_modify, Place.window.injEq]
      by_cases hslot : slot = slot'
      · subst hslot
        cases m.blocks.get slot <;> simp [read_write_block, apply_ite some]
      · simp [hslot]
    | _ => simp [stored]
  | _ => cases p <;> simp [stored]

theorem write_cartridges (m : Memory) (a : UInt16) (v : UInt8) : (m.write a v).cartridges = m.cartridges := by
  unfold write
  split <;> rfl

theorem write_roms (m : Memory) (a : UInt16) (v : UInt8) : (m.write a v).roms = m.roms := by
  unfold write
  split <;> rfl

/-- A read depends on what is stored at its place, on the cartridges and on the ROMs. -/
theorem read_congr {a : UInt16} (hs : m.stored (Place.ofAddress a) = m'.stored (Place.ofAddress a))
    (hc : m.cartridges = m'.cartridges) (hr : m.roms = m'.roms) : m.read a = m'.read a := by
  unfold read readWindow
  rw [hc, hr]
  generalize Place.ofAddress a = p at *
  cases p with
  | low i | high i | colour i => simp only [Option.some.inj hs]
  | block3K i => exact congrArg (·.getD (highByte a)) hs
  | window slot i =>
    simp only [show (m.blocks.get slot).map (·.read i) = (m'.blocks.get slot).map (·.read i) from hs]
  | _ => rfl

theorem stored_write_of_ne {a b : UInt16} (h : b ≠ a) (v : UInt8) :
    (m.write a v).stored (Place.ofAddress b) = m.stored (Place.ofAddress b) := by
  rw [stored_write]
  split_ifs with hplace
  · by_cases hopen : Place.ofAddress b = .open
    · rw [hopen]
      rfl
    · exact absurd (Place.ofAddress_inj hplace.symm hopen) h
  · rfl

/-- A write does not change what any other address reads. -/
theorem read_write_of_ne {a b : UInt16} (h : b ≠ a) (v : UInt8) : (m.write a v).read b = m.read b :=
  read_congr (stored_write_of_ne h v) (write_cartridges m a v) (write_roms m a v)

end Memory
end Vic20
