import Vic20.Machine.Media
import Vic20.Proofs.Memory.Decoding

/-! What memory holds, by what has been done to it. A history lists the newest operation first. A byte of RAM is
the last that was written to its address, in an expansion block since the block was last fitted, and zero where
nothing was. -/

namespace Vic20

namespace Memory

/-- Fits an expansion block that is absent, or removes one that is fitted. -/
def fit (m : Memory) (n : Nat) (fitted : Bool) : Memory :=
  if m.hasBlock n == fitted then m else m.setBlock n fitted

inductive Operation where
  | write (address : UInt16) (v : UInt8)
  | fit (block : Nat) (fitted : Bool)
  | insert (c : Cartridge)
  | removeCartridges

def apply (m : Memory) : Operation → Memory
  | .write address v => m.write address v
  | .fit n fitted => m.fit n fitted
  | .insert c => m.insert c
  | .removeCartridges => m.removeCartridges

/-- New memory after a history. -/
def after (roms : Roms) : List Operation → Memory
  | [] => .new roms
  | o :: earlier => (after roms earlier).apply o

/-! ### Histories -/

/-- The byte last written to an address. -/
def lastWritten (a : UInt16) : List Operation → Option UInt8
  | [] => none
  | .write address v :: earlier => if address = a then some v else lastWritten a earlier
  | _ :: earlier => lastWritten a earlier

/-- What has been done since a block was last fitted, if it is fitted. To fit it once more changes nothing. -/
def sinceFitted (n : Nat) : List Operation → Option (List Operation)
  | [] => none
  | .fit k fitted :: earlier =>
    if k ≠ n then (sinceFitted n earlier).map (.fit k fitted :: ·)
    else if fitted then
      match sinceFitted n earlier with
      | some since => some (.fit k fitted :: since)
      | none => some []
    else none
  | o :: earlier => (sinceFitted n earlier).map (o :: ·)

/-- The cartridge last inserted into a slot, unless cartridges have been removed since. -/
def inserted (slot : Fin 4) : List Operation → Option (Block cartridgeSize)
  | [] => none
  | .insert c :: earlier => if c.slot = slot then some c.image else inserted slot earlier
  | .removeCartridges :: _ => none
  | _ :: earlier => inserted slot earlier

/-- What an expansion block shows. -/
def expanded (n : Nat) (history : List Operation) (a : UInt16) : UInt8 :=
  match sinceFitted n history with
  | some since => (lastWritten a since).getD 0
  | none => highByte a

/-- What a window shows: a cartridge, or else the expansion block behind it. -/
def windowed (slot : Fin 4) (history : List Operation) (a : UInt16) : UInt8 :=
  match inserted slot history with
  | some image => image.read ⟨a.toNat % cartridgeSize, Nat.mod_lt _ (by decide)⟩
  | none => expanded (slot.val + 1) history a

/-- What is to be read at an address after a history. -/
def expected (images : RomImages) (history : List Operation) (a : UInt16) : UInt8 :=
  let n := a.toNat
  if n < 0x0400 then (lastWritten a history).getD 0
  else if n < 0x1000 then expanded 0 history a
  else if n < 0x2000 then (lastWritten a history).getD 0
  else if n < 0x4000 then windowed 0 history a
  else if n < 0x6000 then windowed 1 history a
  else if n < 0x8000 then windowed 2 history a
  else if n < 0x9000 then images.character.getD (n - 0x8000) 0
  else if n < 0x9400 then highByte a
  else if n < 0x9800 then (lastWritten a history).getD 0 &&& 0x0F
  else if n < 0xA000 then highByte a
  else if n < 0xC000 then windowed 3 history a
  else if n < 0xE000 then images.basic.getD (n - 0xC000) 0
  else images.kernal.getD (n - 0xE000) 0

variable {m : Memory} {roms : Roms}

/-! ### What operations do -/

/-- A block after it has been fitted or removed. -/
def refitted {size : Nat} (b : Option (Block size)) (fitted : Bool) : Option (Block size) :=
  if b.isSome == fitted then b else if fitted then some (.zero _) else none

theorem refitted_map {size : Nat} (b : Option (Block size)) (fitted : Bool) (i : Fin size) :
    (refitted b fitted).map (·.read i) = if fitted then some ((b.map (·.read i)).getD 0) else none := by
  cases b <;> cases fitted <;> simp [refitted, Block.zero, Block.filled, Block.read, get_eq_getElem]

theorem fit_zero (m : Memory) (fitted : Bool) :
    m.fit 0 fitted = { m with block3K := refitted m.block3K fitted } := by
  unfold fit refitted hasBlock
  split_ifs with h hfitted
  · rfl
  · simp [setBlock, hfitted]
  · simp [setBlock, hfitted]

theorem hasBlock_succ (m : Memory) (slot : Fin 4) :
    m.hasBlock (slot.val + 1) = (m.blocks.get slot).isSome := by
  simp [hasBlock, get_eq_getElem]

theorem fit_succ (m : Memory) (n : Nat) (fitted : Bool) :
    ∃ blocks, m.fit (n + 1) fitted = { m with blocks } ∧ ∀ slot : Fin 4, blocks.get slot =
      if slot.val = n then refitted (m.blocks.get slot) fitted else m.blocks.get slot := by
  unfold fit
  by_cases h : (m.hasBlock (n + 1) == fitted) = true
  · rw [if_pos h]
    refine ⟨m.blocks, rfl, fun slot => ?_⟩
    split_ifs with hslot
    · subst hslot
      rw [hasBlock_succ] at h
      rw [refitted, if_pos h]
    · rfl
  · rw [if_neg h]
    refine ⟨_, rfl, fun slot => ?_⟩
    rw [get_eq_getElem, Vector.getElem_setIfInBounds]
    by_cases hslot : slot.val = n
    · subst hslot
      rw [hasBlock_succ] at h
      rw [if_pos rfl, if_pos rfl, refitted, if_neg h]
    · rw [if_neg (Ne.symm hslot), if_neg hslot]
      rfl

/-- A block that is fitted holds what it held, or zeros. -/
theorem stored_fit (m : Memory) (n : Nat) (fitted : Bool) (p : Place) :
    (m.fit n fitted).stored p =
      if p.block = some n then (if fitted then some ((m.stored p).getD 0) else none) else m.stored p := by
  cases n with
  | zero =>
    rw [fit_zero]
    cases p with
    | block3K i => exact refitted_map m.block3K fitted i
    | _ => rfl
  | succ n =>
    obtain ⟨blocks, hfit, hblocks⟩ := fit_succ m n fitted
    rw [hfit]
    cases p with
    | window slot i =>
      simp only [stored, Place.block, hblocks slot, Option.some.injEq, Nat.add_right_cancel_iff]
      by_cases hslot : slot.val = n
      · rw [if_pos hslot, if_pos hslot]
        exact refitted_map (m.blocks.get slot) fitted i
      · rw [if_neg hslot, if_neg hslot]
    | _ => rfl

theorem fit_others (m : Memory) (n : Nat) (fitted : Bool) :
    (m.fit n fitted).cartridges = m.cartridges ∧ (m.fit n fitted).roms = m.roms := by
  cases n with
  | zero =>
    rw [fit_zero]
    exact ⟨rfl, rfl⟩
  | succ n =>
    obtain ⟨blocks, hfit, -⟩ := fit_succ m n fitted
    rw [hfit]
    exact ⟨rfl, rfl⟩

theorem after_roms (roms : Roms) (history : List Operation) : (after roms history).roms = roms := by
  induction history with
  | nil => rfl
  | cons o earlier ih =>
    cases o with
    | write a v => exact (write_roms _ a v).trans ih
    | fit n fitted => exact (fit_others _ n fitted).2.trans ih
    | insert c => exact ih
    | removeCartridges => exact ih

/-- The cartridges are those that were inserted. -/
theorem after_cartridges (roms : Roms) (history : List Operation) (slot : Fin 4) :
    (after roms history).cartridges.get slot = inserted slot history := by
  induction history with
  | nil => simp [after, Memory.new, inserted, get_eq_getElem]
  | cons o earlier ih =>
    cases o with
    | write a v => exact (congrArg (·.get slot) (write_cartridges _ a v)).trans ih
    | fit n fitted => exact (congrArg (·.get slot) (fit_others _ n fitted).1).trans ih
    | insert c =>
      simp only [after, apply, insert, inserted, get_eq_getElem, Vector.getElem_set, ← Fin.ext_iff]
      rw [← ih]
      rfl
    | removeCartridges => simp [after, apply, removeCartridges, inserted, get_eq_getElem]

theorem stored_insert (m : Memory) (c : Cartridge) (p : Place) : (m.insert c).stored p = m.stored p := by
  cases p <;> rfl

theorem stored_removeCartridges (m : Memory) (p : Place) : m.removeCartridges.stored p = m.stored p := by
  cases p <;> rfl

/-- RAM that is always there holds what was last written to it. -/
theorem after_stored (roms : Roms) (history : List Operation) {a : UInt16}
    (hblock : (Place.ofAddress a).block = none) :
    (after roms history).stored (Place.ofAddress a) =
      ((Memory.new roms).stored (Place.ofAddress a)).map fun _ => (lastWritten a history).getD 0 := by
  induction history with
  | nil =>
    change (Memory.new roms).stored (Place.ofAddress a) = _
    cases Place.ofAddress a <;>
      simp [stored, Memory.new, lastWritten, Block.zero, Block.filled, Block.read, get_eq_getElem]
  | cons o earlier ih =>
    cases o with
    | write b v =>
      by_cases hb : b = a
      · subst hb
        simp only [after, apply, stored_write, if_true, lastWritten, ih, Option.map_map]
        rfl
      · simp only [after, apply, stored_write_of_ne (Ne.symm hb), lastWritten, if_neg hb, ih]
    | fit n fitted =>
      simp only [after, apply, stored_fit, hblock, reduceCtorEq, if_false, lastWritten, ih]
    | insert c => simp only [after, apply, stored_insert, lastWritten, ih]
    | removeCartridges => simp only [after, apply, stored_removeCartridges, lastWritten, ih]

/-- An expansion block holds what was last written to it since it was fitted, also behind a cartridge. -/
theorem after_stored_block (roms : Roms) (history : List Operation) {a : UInt16} {n : Nat}
    (hblock : (Place.ofAddress a).block = some n) :
    (after roms history).stored (Place.ofAddress a) =
      (sinceFitted n history).map fun since => (lastWritten a since).getD 0 := by
  induction history with
  | nil =>
    change (Memory.new roms).stored (Place.ofAddress a) = none
    generalize Place.ofAddress a = p at hblock
    cases p <;> simp_all [Place.block, stored, Memory.new, get_eq_getElem]
  | cons o earlier ih =>
    cases o with
    | write b v =>
      by_cases hb : b = a
      · subst hb
        simp only [after, apply, stored_write, if_true, sinceFitted, ih, Option.map_map]
        congr 1
        funext since
        simp [lastWritten]
      · simp only [after, apply, stored_write_of_ne (Ne.symm hb), sinceFitted, ih, Option.map_map]
        congr 1
        funext since
        simp [lastWritten, hb]
    | fit k fitted =>
      simp only [after, apply, stored_fit, hblock, Option.some.injEq, sinceFitted, ih]
      by_cases hk : k = n
      · rw [if_pos hk.symm, if_neg (absurd hk)]
        cases fitted with
        | true => cases sinceFitted n earlier <;> rfl
        | false => rfl
      · rw [if_neg (Ne.symm hk), if_pos hk, Option.map_map]
        rfl
    | insert c =>
      simp only [after, apply, stored_insert, sinceFitted, ih, Option.map_map]
      rfl
    | removeCartridges =>
      simp only [after, apply, stored_removeCartridges, sinceFitted, ih, Option.map_map]
      rfl

theorem sized_ok {name : String} {size : Nat} {image : Array UInt8} {b : Block size}
    (h : RomImages.sized name size image = .ok b) : image = b.toArray := by
  unfold RomImages.sized at h
  split at h
  · cases h
    rfl
  · cases h

/-- The images that pass are taken as they are. -/
theorem validate_ok {images : RomImages} (h : images.validate = .ok roms) :
    images.kernal = roms.kernal.toArray ∧ images.basic = roms.basic.toArray ∧
      images.character = roms.character.toArray := by
  unfold RomImages.validate at h
  cases hk : RomImages.sized "KERNAL" 0x2000 images.kernal with
  | error e => simp [hk, bind, Except.bind] at h
  | ok kernal =>
    cases hb : RomImages.sized "BASIC" 0x2000 images.basic with
    | error e => simp [hk, hb, bind, Except.bind] at h
    | ok basic =>
      cases hc : RomImages.sized "character" 0x1000 images.character with
      | error e => simp [hk, hb, hc, bind, Except.bind] at h
      | ok character =>
        simp only [hk, hb, hc, bind, Except.bind, pure, Except.pure, Except.ok.injEq] at h
        subst h
        exact ⟨sized_ok hk, sized_ok hb, sized_ok hc⟩

theorem getD_read {size : Nat} (b : Block size) (i : Fin size) : b.toArray.getD i.val 0 = b.read i := by
  simp [Block.read, get_eq_getElem, Array.getD_eq_getD_getElem?]

/-- A window reads as its history tells. -/
theorem after_window (roms : Roms) (history : List Operation) {a : UInt16} {slot : Fin 4}
    (h : Place.start slot ≤ a.toNat) (h' : a.toNat < Place.start slot + 0x2000)
    (hplace : Place.ofAddress a = .window slot ⟨a.toNat - Place.start slot, by omega⟩) :
    (after roms history).read a = windowed slot history a := by
  have hstored := after_stored_block roms history (a := a) (n := slot.val + 1) (by rw [hplace]; rfl)
  have hcartridge := after_cartridges roms history slot
  have hoffset : (⟨a.toNat % cartridgeSize, Nat.mod_lt _ (by decide)⟩ : Fin cartridgeSize) =
      ⟨a.toNat - Place.start slot, by unfold cartridgeSize; omega⟩ := Fin.ext (window_index h h').1
  unfold read windowed
  rw [hplace, ← hcartridge, hoffset]
  simp only [readWindow]
  cases (after roms history).cartridges.get slot with
  | some image => rfl
  | none =>
    rw [hplace] at hstored
    simp only [stored] at hstored
    simp only [expanded, hstored]
    cases sinceFitted (slot.val + 1) history <;> rfl

theorem expected_window (images : RomImages) (history : List Operation) {a : UInt16} {slot : Fin 4}
    (h : Place.start slot ≤ a.toNat) (h' : a.toNat < Place.start slot + 0x2000) :
    expected images history a = windowed slot history a := by
  unfold expected
  have hslots : ∀ slot : Fin 4, slot = 0 ∨ slot = 1 ∨ slot = 2 ∨ slot = 3 := by decide
  -- Slot by slot the bounds are numbers.
  rcases hslots slot with rfl | rfl | rfl | rfl
  · have h : 0x2000 ≤ a.toNat ∧ a.toNat < 0x4000 := ⟨h, h'⟩
    simp (disch := omega) only [if_pos, if_neg]
  · have h : 0x4000 ≤ a.toNat ∧ a.toNat < 0x6000 := ⟨h, h'⟩
    simp (disch := omega) only [if_pos, if_neg]
  · have h : 0x6000 ≤ a.toNat ∧ a.toNat < 0x8000 := ⟨h, h'⟩
    simp (disch := omega) only [if_pos, if_neg]
  · have h : 0xA000 ≤ a.toNat ∧ a.toNat < 0xC000 := ⟨h, h'⟩
    simp (disch := omega) only [if_pos, if_neg]

/-- Memory reads as its history tells. -/
theorem read_after {images : RomImages} (h : images.validate = .ok roms) (history : List Operation) (a : UInt16) :
    (after roms history).read a = expected images history a := by
  obtain ⟨hkernal, hbasic, hcharacter⟩ : images.kernal = (after roms history).roms.kernal.toArray ∧
      images.basic = (after roms history).roms.basic.toArray ∧
      images.character = (after roms history).roms.character.toArray := by
    rw [after_roms]
    exact validate_ok h
  have hplace := Place.at_ofAddress a
  have hram := after_stored roms history (a := a)
  have hexpanded := after_stored_block roms history (a := a) (n := 0)
  generalize hp : Place.ofAddress a = p at hplace hram hexpanded
  unfold expected
  cases hplace with
  | low h =>
    rw [if_pos h, read, hp]
    exact Option.some.inj (hram rfl)
  | block3K h h' =>
    have hstored := hexpanded rfl
    simp (disch := omega) only [if_pos, if_neg]
    simp only [stored] at hstored
    simp only [read, hp, hstored, expanded]
    cases sinceFitted 0 history <;> rfl
  | high h h' =>
    simp (disch := omega) only [if_pos, if_neg]
    rw [read, hp]
    exact Option.some.inj (hram rfl)
  | window slot h h' =>
    rw [after_window roms history h h' hp]
    exact (expected_window images history h h').symm
  | character h h' =>
    simp (disch := omega) only [if_pos, if_neg]
    rw [read, hp, hcharacter]
    exact (getD_read _ ⟨a.toNat - 0x8000, show _ < 0x1000 by omega⟩).symm
  | colour h h' =>
    simp (disch := omega) only [if_pos, if_neg]
    rw [read, hp]
    exact congrArg (· &&& 0x0F) (Option.some.inj (hram rfl))
  | basic h h' =>
    simp (disch := omega) only [if_pos, if_neg]
    rw [read, hp, hbasic]
    exact (getD_read _ ⟨a.toNat - 0xC000, show _ < 0x2000 by omega⟩).symm
  | kernal h h' =>
    simp (disch := omega) only [if_neg]
    rw [read, hp, hkernal]
    exact (getD_read _ ⟨a.toNat - 0xE000, show _ < 0x2000 by omega⟩).symm
  | nothing h =>
    rw [read, hp]
    rcases h with h | h <;> simp (disch := omega) only [if_pos, if_neg]

/-! ### The video chip -/

open Video

theorem readWrapped_eq {size : Nat} (b : Block size) {k : Nat} {i : Fin size} (h : k % size = i.val)
    (pos : 0 < size := by decide) : b.readWrapped k pos = b.read i :=
  congrArg b.read (Fin.ext h)

/-- The video chip sees the built-in RAM as the processor does. -/
theorem video_read (m : Memory) {a : UInt16} (h : a < 0x0400 ∨ 0x1000 ≤ a ∧ a < 0x2000) :
    VideoMemory.matrix m a = m.read a ∧ VideoMemory.glyph m a = m.read a := by
  simp only [UInt16.lt_iff_toNat_lt, UInt16.le_iff_toNat_le, UInt16.reduceToNat] at h
  have hplace := Place.at_ofAddress a
  generalize hp : Place.ofAddress a = p at hplace
  simp only [VideoMemory.matrix, VideoMemory.glyph, UInt16.lt_iff_toNat_lt, UInt16.reduceToNat, Memory.read, hp]
  cases hplace with
  | low h' =>
    have hread := readWrapped_eq m.low (i := ⟨a.toNat, h'⟩) (Nat.mod_eq_of_lt h')
    rw [if_pos h', if_pos (by omega)]
    exact ⟨hread, hread⟩
  | high h' h'' =>
    have hread := readWrapped_eq m.high (k := a.toNat) (i := ⟨a.toNat - 0x1000, by omega⟩)
      (show a.toNat % 0x1000 = a.toNat - 0x1000 by omega)
    rw [if_neg (by omega), if_neg (by omega), if_pos h'']
    exact ⟨hread, hread⟩
  | window slot h' h'' =>
    unfold Place.start at h'
    split_ifs at h' <;> omega
  | block3K | character | colour | basic | kernal | nothing => omega

/-- What is read and written when memory is used in any way, and what the video chip sees. -/
structure Exact (images : RomImages) (history : List Operation) (m : Memory) : Prop where
  read : ∀ a, m.read a = expected images history a
  /-- No index is out of range. -/
  inRange : ∀ a v, m.read? a = some (m.read a) ∧ m.write? a v = some (m.write a v) ∧
    m.matrix? a = some (VideoMemory.matrix m a) ∧ m.colour? a = some (VideoMemory.colour m a) ∧
    m.glyph? a = some (VideoMemory.glyph m a)
  apart : ∀ a v b, b ≠ a → (m.write a v).read b = m.read b
  seen : ∀ a : UInt16, a < 0x0400 ∨ 0x1000 ≤ a ∧ a < 0x2000 →
    VideoMemory.matrix m a = m.read a ∧ VideoMemory.glyph m a = m.read a
  unseen : ∀ block3K blocks cartridges (a : UInt16),
    let m' : Memory := { m with block3K, blocks, cartridges }
    VideoMemory.matrix m' a = VideoMemory.matrix m a ∧ VideoMemory.colour m' a = VideoMemory.colour m a ∧
      VideoMemory.glyph m' a = VideoMemory.glyph m a

/-- Memory is an exact store, whatever has been done to it. -/
theorem exact_store (images : RomImages) (roms : Roms) (h : images.validate = .ok roms)
    (history : List Operation) : Exact images history (after roms history) where
  read := read_after h history
  inRange a v := ⟨read?_eq _ a, write?_eq _ a v, matrix?_eq _ a, colour?_eq _ a, glyph?_eq _ a⟩
  apart _ v _ hne := read_write_of_ne hne v
  seen _ ha := video_read _ ha
  unseen _ _ _ _ := ⟨rfl, rfl, rfl⟩

/-- Images of one byte each. -/
def plainImages : RomImages := ⟨.replicate 0x2000 1, .replicate 0x2000 2, .replicate 0x1000 3⟩

def plainRoms : Roms :=
  ⟨⟨.replicate 0x2000 1, Array.size_replicate⟩, ⟨.replicate 0x2000 2, Array.size_replicate⟩,
    ⟨.replicate 0x1000 3, Array.size_replicate⟩⟩

theorem validate_plainImages : plainImages.validate = .ok plainRoms := by
  simp [RomImages.validate, RomImages.sized, plainImages, plainRoms, bind, Except.bind, pure, Except.pure]

/-- A byte written behind a cartridge shows once the cartridge has been removed. -/
theorem exact_store_hidden :
    plainImages.validate = .ok plainRoms ∧
      (after plainRoms [.removeCartridges, .write 0x2005 42, .insert ⟨0x2000, 0, .filled _ 9⟩,
        .fit 1 true]).read 0x2005 = 42 :=
  ⟨validate_plainImages, (exact_store plainImages plainRoms validate_plainImages _).read 0x2005⟩

end Memory

/-! ### The machine -/

/-- Where there is no block, none is fitted. -/
theorem Memory.setBlock_beyond (m : Memory) (n : Nat) (fitted : Bool) : m.setBlock (n + 5) fitted = m := by
  have hblocks : m.blocks.setIfInBounds (n + 4) (if fitted then some (.zero _) else none) = m.blocks := by
    apply Vector.ext
    intro k hk
    rw [Vector.getElem_setIfInBounds, if_neg (by omega)]
  exact congrArg (fun blocks => { m with blocks }) hblocks

namespace Machine

variable {σ : Type}

theorem setBlock_memory (m : Machine σ) (n : Nat) (fitted : Bool) :
    (m.setBlock n fitted).2.core.board.memory = m.core.board.memory.fit n fitted := by
  unfold setBlock Memory.fit
  cases h : Memory.blockSizes[n]? with
  | some size =>
    split_ifs <;> rfl
  | none =>
    have hn : 5 ≤ n := List.getElem?_eq_none_iff.1 h
    obtain ⟨n, rfl⟩ := Nat.exists_eq_add_of_le' hn
    rw [Memory.setBlock_beyond, ite_self]

end Machine
end Vic20
