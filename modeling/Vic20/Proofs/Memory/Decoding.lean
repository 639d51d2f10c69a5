import Vic20.Proofs.Memory.Places

/-! The address decoder in shifts and masks. An index is taken from the address without a look at the size of
what it is for, and an access that is out of range fails. None does: the decoder finds the place of the address. -/

namespace Vic20.Memory

open Video

/-- Writes at an index, if it is in range. -/
def put? {size : Nat} (b : Block size) (i : Nat) (v : UInt8) : Option (Block size) :=
  if h : i < size then some (b.write ⟨i, h⟩ v) else none

/-- The cartridge in a slot, or else an expansion block. The blocks are counted from one here. -/
def window? (m : Memory) (slot block : Nat) : Option (Option (Block 0x2000)) :=
  match m.cartridges[slot]? with
  | some (some image) => some (some image)
  | some none => m.blocks[block - 1]?
  | none => none

def readWindow? (m : Memory) (slot block : Nat) (address : UInt16) : Option UInt8 :=
  match m.window? slot block with
  | some (some b) => b[address.toNat &&& 0x1FFF]?
  | some none => some (highByte address)
  | none => none

def read? (m : Memory) (address : UInt16) : Option UInt8 :=
  let a := address.toNat
  match a >>> 12 with
  | 0 =>
    if a < 0x400 then m.low[a]?
    else match m.block3K with
      | some b => b[a - 0x400]?
      | none => some (highByte address)
  | 1 => m.high[a &&& 0xFFF]?
  | 2 | 3 | 4 | 5 | 6 | 7 => m.readWindow? ((a >>> 13) - 1) ((a >>> 13) - 1 + 1) address
  | 8 => m.roms.character[a &&& 0xFFF]?
  | 9 =>
    if 0x9400 ≤ a ∧ a < 0x9800 then m.colours[a &&& 0x3FF]?.map (· &&& 0x0F)
    else some (highByte address)
  | 10 | 11 => m.readWindow? 3 4 address
  | 12 | 13 => m.roms.basic[a &&& 0x1FFF]?
  | _ => m.roms.kernal[a &&& 0x1FFF]?

def writeExpansion? (m : Memory) (block : Nat) (address : UInt16) (v : UInt8) : Option Memory :=
  match m.blocks[block - 1]? with
  | some (some b) =>
    (put? b (address.toNat &&& 0x1FFF) v).map fun b =>
      { m with blocks := m.blocks.setIfInBounds (block - 1) (some b) }
  | some none => some m
  | none => none

def write? (m : Memory) (address : UInt16) (v : UInt8) : Option Memory :=
  let a := address.toNat
  match a >>> 12 with
  | 0 =>
    if a < 0x400 then (put? m.low a v).map fun low => { m with low }
    else match m.block3K with
      | some b => (put? b (a - 0x400) v).map fun b => { m with block3K := some b }
      | none => some m
  | 1 => (put? m.high (a &&& 0xFFF) v).map fun high => { m with high }
  | 2 | 3 | 4 | 5 | 6 | 7 => m.writeExpansion? (a >>> 13) address v
  | 9 =>
    if 0x9400 ≤ a ∧ a < 0x9800 then (put? m.colours (a &&& 0x3FF) v).map fun colours => { m with colours }
    else some m
  | 10 | 11 => m.writeExpansion? 4 address v
  | _ => some m

/-! The video chip's reads. -/

def matrix? (m : Memory) (address : UInt16) : Option UInt8 :=
  if address < 0x400 then m.low[address.toNat]? else m.high[address.toNat &&& 0xFFF]?

def colour? (m : Memory) (offset : UInt16) : Option UInt8 := m.colours[offset.toNat &&& 0x3FF]?

def glyph? (m : Memory) (address : UInt16) : Option UInt8 :=
  match address.toNat >>> 12 with
  | 0 => m.low[address.toNat &&& 0x3FF]?
  | 1 => m.high[address.toNat &&& 0xFFF]?
  | _ => m.roms.character[address.toNat &&& 0xFFF]?

variable (m : Memory)

/-! ### Indices -/

theorem getElem?_read {size : Nat} (b : Block size) {k : Nat} {i : Fin size} (h : k = i.val) :
    b[k]? = some (b.read i) := by
  subst h
  exact Vector.getElem?_eq_getElem i.isLt

theorem put?_write {size : Nat} (b : Block size) {k : Nat} {i : Fin size} (h : k = i.val) (v : UInt8) :
    put? b k v = some (b.write i v) := by
  subst h
  exact dif_pos i.isLt

section Masks

variable (n : Nat)

theorem nibble_eq : n >>> 12 = n / 0x1000 := Nat.shiftRight_eq_div_pow n 12

theorem eighth_eq : n >>> 13 = n / 0x2000 := Nat.shiftRight_eq_div_pow n 13

theorem and_1K : n &&& 0x3FF = n % 0x400 := Nat.and_two_pow_sub_one_eq_mod n 10

theorem and_4K : n &&& 0xFFF = n % 0x1000 := Nat.and_two_pow_sub_one_eq_mod n 12

theorem and_8K : n &&& 0x1FFF = n % 0x2000 := Nat.and_two_pow_sub_one_eq_mod n 13

end Masks

theorem readWindow?_eq (slot : Fin 4) (i : Fin 0x2000) (address : UInt16) (hi : address.toNat &&& 0x1FFF = i.val) :
    m.readWindow? slot.val (slot.val + 1) address = some ((m.readWindow slot i).getD (highByte address)) := by
  have hcartridge : m.cartridges[slot.val]? = some (m.cartridges.get slot) :=
    Vector.getElem?_eq_getElem slot.isLt
  have hblock : m.blocks[slot.val + 1 - 1]? = some (m.blocks.get slot) := Vector.getElem?_eq_getElem slot.isLt
  unfold readWindow? window? readWindow
  rw [hcartridge, hblock]
  cases m.cartridges.get slot with
  | some image => exact getElem?_read image hi
  | none =>
    cases m.blocks.get slot with
    | some b => exact getElem?_read b hi
    | none => rfl

/-- What the decoder takes from an address in a window. -/
theorem window_index {slot : Fin 4} {n : Nat} (h : Place.start slot ≤ n) (h' : n < Place.start slot + 0x2000) :
    n % 0x2000 = n - Place.start slot ∧
      (slot = Place.lastSlot ∧ (n / 0x1000 = 10 ∨ n / 0x1000 = 11) ∨
        n / 0x2000 = slot.val + 1 ∧ (n / 0x1000 = 2 ∨ n / 0x1000 = 3 ∨ n / 0x1000 = 4 ∨ n / 0x1000 = 5 ∨
          n / 0x1000 = 6 ∨ n / 0x1000 = 7)) := by
  unfold Place.start at *
  have hslot := slot.isLt
  split_ifs at * with hlast
  · exact ⟨by omega, .inl ⟨hlast, by omega⟩⟩
  · have hne : slot.val ≠ 3 := fun h => hlast (Fin.ext h)
    exact ⟨by omega, .inr (by omega)⟩

/-- The decoder reads in range, and what the place of the address holds. -/
theorem read?_eq (address : UInt16) : m.read? address = some (m.read address) := by
  have hplace := Place.at_ofAddress address
  unfold read? read
  simp only [nibble_eq, eighth_eq, and_1K, and_4K, and_8K]
  generalize Place.ofAddress address = p at hplace ⊢
  generalize hn : address.toNat = n at hplace ⊢
  cases hplace with
  | low h =>
    have hnibble : n / 0x1000 = 0 := by omega
    simp only [hnibble, h, if_true]
    exact getElem?_read m.low rfl
  | block3K h h' =>
    have hnibble : n / 0x1000 = 0 := by omega
    simp only [hnibble, Nat.not_lt.2 h, if_false]
    cases m.block3K with
    | some b => exact getElem?_read b rfl
    | none => rfl
  | high h h' =>
    have hnibble : n / 0x1000 = 1 := by omega
    simp only [hnibble]
    exact getElem?_read m.high (show n % 0x1000 = n - 0x1000 by omega)
  | window slot h h' =>
    obtain ⟨hoffset, ⟨rfl, hnibble⟩ | ⟨heighth, hnibble⟩⟩ := window_index h h'
    · have hwindow := m.readWindow?_eq Place.lastSlot ⟨n - Place.start Place.lastSlot, by omega⟩ address
        (by rw [and_8K, hn, hoffset])
      rcases hnibble with hnibble | hnibble <;> simp only [hnibble] <;> exact hwindow
    · have hwindow := m.readWindow?_eq slot ⟨n - Place.start slot, by omega⟩ address
        (by rw [and_8K, hn, hoffset])
      rcases hnibble with hnibble | hnibble | hnibble | hnibble | hnibble | hnibble <;>
        simp only [hnibble, heighth, Nat.add_sub_cancel] <;> exact hwindow
  | character h h' =>
    have hnibble : n / 0x1000 = 8 := by omega
    simp only [hnibble]
    exact getElem?_read m.roms.character (show n % 0x1000 = n - 0x8000 by omega)
  | colour h h' =>
    have hnibble : n / 0x1000 = 9 := by omega
    simp only [hnibble, h, h', and_self, if_true]
    rw [getElem?_read m.colours (i := ⟨n - 0x9400, by omega⟩) (show n % 0x400 = n - 0x9400 by omega)]
    rfl
  | basic h h' =>
    have hnibble : n / 0x1000 = 12 ∨ n / 0x1000 = 13 := by omega
    have hread := getElem?_read m.roms.basic (i := ⟨n - 0xC000, by omega⟩)
      (show n % 0x2000 = n - 0xC000 by omega)
    rcases hnibble with hnibble | hnibble <;> simp only [hnibble] <;> exact hread
  | kernal h h' =>
    have hnibble : n / 0x1000 = 14 ∨ n / 0x1000 = 15 := by omega
    have hread := getElem?_read m.roms.kernal (i := ⟨n - 0xE000, by omega⟩)
      (show n % 0x2000 = n - 0xE000 by omega)
    rcases hnibble with hnibble | hnibble <;> simp only [hnibble] <;> exact hread
  | nothing h =>
    have hnibble : n / 0x1000 = 9 := by omega
    simp only [hnibble]
    rw [if_neg (by omega)]

theorem writeExpansion?_eq (slot : Fin 4) (i : Fin 0x2000) (address : UInt16) (v : UInt8)
    (hi : address.toNat &&& 0x1FFF = i.val) :
    m.writeExpansion? (slot.val + 1) address v = some { m with
      blocks := ⟨m.blocks.toArray.modify slot.val (·.map (·.write i v)), by simp⟩ } := by
  have hblock : m.blocks[slot.val + 1 - 1]? = some (m.blocks.get slot) := Vector.getElem?_eq_getElem slot.isLt
  have hblocks (b' : Option (Block 0x2000)) (hb : (m.blocks.get slot).map (·.write i v) = b') :
      m.blocks.setIfInBounds slot.val b' =
        ⟨m.blocks.toArray.modify slot.val (·.map (·.write i v)), by simp⟩ := by
    apply Vector.ext
    intro k hk
    simp only [Vector.getElem_setIfInBounds, Vector.getElem_mk, Array.getElem_modify, Vector.getElem_toArray]
    split_ifs with hslot
    · subst hslot
      exact hb.symm
    · rfl
  unfold writeExpansion?
  rw [hblock]
  cases h : m.blocks.get slot with
  | some b =>
    rw [← hblocks (some (b.write i v)) (congrArg (Option.map _) h)]
    exact congrArg (Option.map _) (put?_write b hi v)
  | none =>
    have hsame : m.blocks.setIfInBounds slot.val none = m.blocks := by
      apply Vector.ext
      intro k hk
      rw [Vector.getElem_setIfInBounds]
      split_ifs with hslot
      · subst hslot
        exact h.symm
      · rfl
    rw [← hblocks none (congrArg (Option.map _) h), hsame]

/-- The decoder writes in range, and to the place of the address. -/
theorem write?_eq (address : UInt16) (v : UInt8) : m.write? address v = some (m.write address v) := by
  have hplace := Place.at_ofAddress address
  unfold write? write
  simp only [nibble_eq, eighth_eq, and_1K, and_4K]
  generalize Place.ofAddress address = p at hplace ⊢
  generalize hn : address.toNat = n at hplace ⊢
  cases hplace with
  | low h =>
    have hnibble : n / 0x1000 = 0 := by omega
    simp only [hnibble, h, if_true]
    exact congrArg (Option.map fun low => { m with low }) (put?_write m.low (i := ⟨n, h⟩) rfl v)
  | block3K h h' =>
    have hnibble : n / 0x1000 = 0 := by omega
    simp only [hnibble, Nat.not_lt.2 h, if_false]
    cases hb : m.block3K with
    | some b =>
      have hput := put?_write b (k := n - 0x0400) (i := ⟨n - 0x0400, by omega⟩) rfl v
      simp only [hput, Option.map_some]
    | none =>
      exact congrArg (fun block3K => some { m with block3K }) hb
  | high h h' =>
    have hnibble : n / 0x1000 = 1 := by omega
    simp only [hnibble]
    exact congrArg (Option.map fun high => { m with high })
      (put?_write m.high (i := ⟨n - 0x1000, by omega⟩) (show n % 0x1000 = n - 0x1000 by omega) v)
  | window slot h h' =>
    obtain ⟨hoffset, ⟨rfl, hnibble⟩ | ⟨heighth, hnibble⟩⟩ := window_index h h'
    · have hwindow := m.writeExpansion?_eq Place.lastSlot ⟨n - Place.start Place.lastSlot, by omega⟩ address v
        (by rw [and_8K, hn, hoffset])
      rcases hnibble with hnibble | hnibble <;> simp only [hnibble] <;> exact hwindow
    · have hwindow := m.writeExpansion?_eq slot ⟨n - Place.start slot, by omega⟩ address v
        (by rw [and_8K, hn, hoffset])
      rcases hnibble with hnibble | hnibble | hnibble | hnibble | hnibble | hnibble <;>
        simp only [hnibble, heighth] <;> exact hwindow
  | character h h' =>
    have hnibble : n / 0x1000 = 8 := by omega
    simp only [hnibble]
  | colour h h' =>
    have hnibble : n / 0x1000 = 9 := by omega
    simp only [hnibble, h, h', and_self, if_true]
    exact congrArg (Option.map fun colours => { m with colours })
      (put?_write m.colours (i := ⟨n - 0x9400, by omega⟩) (show n % 0x400 = n - 0x9400 by omega) v)
  | basic h h' =>
    have hnibble : n / 0x1000 = 12 ∨ n / 0x1000 = 13 := by omega
    rcases hnibble with hnibble | hnibble <;> simp only [hnibble]
  | kernal h h' =>
    have hnibble : n / 0x1000 = 14 ∨ n / 0x1000 = 15 := by omega
    rcases hnibble with hnibble | hnibble <;> simp only [hnibble]
  | nothing h =>
    have hnibble : n / 0x1000 = 9 := by omega
    simp only [hnibble]
    rw [if_neg (by omega)]

/-! ### The video chip -/

theorem matrix?_eq (address : UInt16) : m.matrix? address = some (VideoMemory.matrix m address) := by
  unfold matrix?
  simp only [VideoMemory.matrix]
  split_ifs with h
  · have hlt : address.toNat < 0x400 := UInt16.lt_iff_toNat_lt.1 h
    exact getElem?_read m.low (Nat.mod_eq_of_lt hlt).symm
  · exact getElem?_read m.high (and_4K _)

theorem colour?_eq (offset : UInt16) : m.colour? offset = some (VideoMemory.colour m offset) :=
  getElem?_read m.colours (and_1K _)

theorem glyph?_eq (address : UInt16) : m.glyph? address = some (VideoMemory.glyph m address) := by
  unfold glyph?
  simp only [VideoMemory.glyph, nibble_eq, and_1K, and_4K]
  split_ifs with h h'
  · have hlt : address.toNat < 0x1000 := UInt16.lt_iff_toNat_lt.1 h
    have hnibble : address.toNat / 0x1000 = 0 := by omega
    simp only [hnibble]
    exact getElem?_read m.low rfl
  · have hge : ¬address.toNat < 0x1000 := fun hlt => h (UInt16.lt_iff_toNat_lt.2 hlt)
    have hlt : address.toNat < 0x2000 := UInt16.lt_iff_toNat_lt.1 h'
    have hnibble : address.toNat / 0x1000 = 1 := by omega
    simp only [hnibble]
    exact getElem?_read m.high rfl
  · have hge : ¬address.toNat < 0x2000 := fun hlt => h' (UInt16.lt_iff_toNat_lt.2 hlt)
    have hnibble : 2 ≤ address.toNat / 0x1000 := by omega
    obtain ⟨k, hk⟩ := Nat.exists_eq_add_of_le' hnibble
    simp only [hk]
    exact getElem?_read m.roms.character rfl

end Vic20.Memory
