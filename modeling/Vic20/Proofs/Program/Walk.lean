import Vic20.Proofs.Program.Chain
import Vic20.Proofs.Word

/-! Reading a program back from memory, line by line. The next line is found by the link or by looking for the zero
byte at the end of the text. Following the links gives back every program whose image fits into memory; looking for
zero bytes does so where no text has one. -/

namespace Vic20.Program

/-- An image and the address it is loaded at. Its first two bytes, the load address, are not in memory. -/
structure Loaded where
  start : UInt16
  image : List UInt8
  deriving DecidableEq, Repr

/-- A line where it was found. -/
structure Found where
  address : UInt16
  line : Line
  deriving DecidableEq, Repr

namespace Loaded

/-- Where an address is in the image. -/
def offset (m : Loaded) (a : UInt16) : Nat := (a - m.start).toNat + 2

def byteAt (m : Loaded) (a : UInt16) : Option UInt8 := m.image[m.offset a]?

def wordAt (m : Loaded) (a : UInt16) : Option UInt16 :=
  (m.byteAt a).bind fun low => (m.byteAt (a + 1)).map (word low)

/-- The bytes from an address up to another. -/
def between (m : Loaded) (a b : UInt16) : List UInt8 := (m.image.drop (m.offset a)).take (b - a).toNat

/-- The line at an address when the next line is at another. Its text is what is between its number and the zero
byte before the next line. -/
def lineAt (m : Loaded) (a next : UInt16) : Option Line :=
  if m.byteAt (next - 1) = some 0 then (m.wordAt (a + 2)).map (⟨·, m.between (a + 4) (next - 1)⟩) else none

/-- The address that a line's link gives for the next. -/
def linked (m : Loaded) (a : UInt16) : Option UInt16 := m.wordAt a

/-- The address after the first zero byte of a line's text. -/
def scanned (m : Loaded) (a : UInt16) : Option UInt16 :=
  ((m.image.drop (m.offset (a + 4))).findIdx? (· == 0)).map fun i => a + UInt16.ofNat (i + 5)

/-- Visits lines until a link is zero. Gives them, and the address of that link. A line takes five bytes or more, so
that each is above the one before. -/
def walk (m : Loaded) (next : UInt16 → Option UInt16) (a : UInt16) : Option (List Found × UInt16) :=
  (m.wordAt a).bind fun link =>
    if link = 0 then some ([], a)
    else (next a).bind fun b =>
      if _ : a.toNat + 5 ≤ b.toNat then
        (m.lineAt a b).bind fun l => (m.walk next b).map fun (found, last) => (⟨a, l⟩ :: found, last)
      else none
termination_by 0x10000 - a.toNat
decreasing_by
  have := b.toNat_lt
  omega

end Loaded

/-! ### Bytes in memory -/

/-- From an address on, the image holds these bytes and no more, and all of it fits into memory. -/
structure Loaded.Holds (m : Loaded) (a : UInt16) (bytes : List UInt8) : Prop where
  drop : m.image.drop (m.offset a) = bytes
  inside : m.offset a + bytes.length = m.image.length
  small : m.image.length ≤ 0x10001
  fits : a.toNat + bytes.length ≤ 0xFFFF

namespace Loaded.Holds

variable {m : Loaded} {a : UInt16} {bytes : List UInt8} {k : Nat}

theorem toNat_add (h : Holds m a bytes) (hk : k ≤ bytes.length) : (a + UInt16.ofNat k).toNat = a.toNat + k := by
  have hfits := h.fits
  rw [UInt16.toNat_add, UInt16.toNat_ofNat']
  omega

theorem offset_add (h : Holds m a bytes) (hk : k ≤ bytes.length) :
    m.offset (a + UInt16.ofNat k) = m.offset a + k := by
  have hinside := h.inside
  have hsmall := h.small
  have hsub : a + UInt16.ofNat k - m.start = a - m.start + UInt16.ofNat k := by
    rw [UInt16.sub_eq_add_neg, UInt16.sub_eq_add_neg, UInt16.add_assoc, UInt16.add_comm (UInt16.ofNat k),
      UInt16.add_assoc]
  unfold offset at *
  rw [hsub, UInt16.toNat_add, UInt16.toNat_ofNat']
  omega

theorem skip (h : Holds m a bytes) (hk : k ≤ bytes.length) : Holds m (a + UInt16.ofNat k) (bytes.drop k) where
  drop := by rw [h.offset_add hk, ← List.drop_drop, h.drop]
  inside := by
    have hinside := h.inside
    rw [h.offset_add hk, List.length_drop]
    omega
  small := h.small
  fits := by
    have hfits := h.fits
    rw [h.toNat_add hk, List.length_drop]
    omega

theorem byteAt_add (h : Holds m a bytes) (hk : k ≤ bytes.length) : m.byteAt (a + UInt16.ofNat k) = bytes[k]? := by
  rw [byteAt, h.offset_add hk, ← List.getElem?_drop, h.drop]

theorem wordAt_eq {low high : UInt8} {rest : List UInt8} (h : Holds m a (low :: high :: rest)) :
    m.wordAt a = some (word low high) := by
  have hlow := h.byteAt_add (k := 0) (by simp)
  have hhigh := h.byteAt_add (k := 1) (by simp)
  rw [show a + UInt16.ofNat 0 = a from UInt16.add_zero a] at hlow
  simp [wordAt, hlow, show m.byteAt (a + 1) = some high from hhigh]

theorem wordAt_wordBytes {w : UInt16} {rest : List UInt8} (h : Holds m a (wordBytes w ++ rest)) :
    m.wordAt a = some w := by
  rw [wordAt_eq h, word_bytes]

theorem between_eq {text rest : List UInt8} (h : Holds m a (text ++ rest)) :
    m.between a (a + UInt16.ofNat text.length) = text := by
  have hfits := h.fits
  rw [List.length_append] at hfits
  have hlength : (a + UInt16.ofNat text.length - a).toNat = text.length := by
    rw [UInt16.add_comm, UInt16.add_sub_cancel, UInt16.toNat_ofNat']
    omega
  rw [between, h.drop, hlength, List.take_left]

end Loaded.Holds

/-! ### Lines in memory -/

/-- Lines, each where its record begins. -/
def found (a : UInt16) : List Line → List Found
  | [] => []
  | l :: ls => ⟨a, l⟩ :: found (l.next a) ls

theorem map_line_found (a : UInt16) (ls : List Line) : (found a ls).map Found.line = ls := by
  induction ls generalizing a with
  | nil => rfl
  | cons l ls ih => simp [found, ih]

theorem next_eq (l : Line) (a : UInt16) : l.next a = a + UInt16.ofNat (l.text.length + 5) := rfl

/-- The address of the zero byte at the end of a line. -/
theorem next_sub_one (l : Line) (a : UInt16) : l.next a - 1 = a + UInt16.ofNat (l.text.length + 4) := by
  rw [next_eq, ← Nat.add_assoc _ 4 1, UInt16.ofNat_add, ← UInt16.add_assoc]
  exact UInt16.add_sub_cancel _ 1

namespace Loaded

variable {m : Loaded} {a : UInt16} {l : Line} {ls : List Line}

theorem length_lt_chain (a : UInt16) (l : Line) (ls : List Line) :
    l.text.length + 5 < (chain a (l :: ls)).length := by
  simp only [chain, List.length_append, List.length_cons, length_wordBytes, length_chain]
  omega

namespace Holds

theorem ended (h : Holds m a (chain a [])) : m.wordAt a = some 0 := h.wordAt_eq

theorem link (h : Holds m a (chain a (l :: ls))) : m.wordAt a = some (l.next a) := by
  rw [chain, List.append_assoc, List.append_assoc] at h
  exact h.wordAt_wordBytes

theorem next (h : Holds m a (chain a (l :: ls))) : Holds m (l.next a) (chain (l.next a) ls) := by
  have hskip := h.skip (Nat.le_of_lt (length_lt_chain a l ls))
  have hdrop : (chain a (l :: ls)).drop (l.text.length + 5) = chain (l.next a) ls := by
    have hchain : chain a (l :: ls) =
        (wordBytes (l.next a) ++ wordBytes l.number ++ l.text ++ [0]) ++ chain (l.next a) ls := by
      simp [chain]
    rw [hchain]
    apply List.drop_left'
    simp
    omega
  rwa [hdrop] at hskip

theorem toNat_next (h : Holds m a (chain a (l :: ls))) : (l.next a).toNat = a.toNat + (l.text.length + 5) :=
  h.toNat_add (Nat.le_of_lt (length_lt_chain a l ls))

theorem lineAt_next (h : Holds m a (chain a (l :: ls))) : m.lineAt a (l.next a) = some l := by
  have hlength := length_lt_chain a l ls
  have hzero : m.byteAt (l.next a - 1) = some 0 := by
    rw [next_sub_one, h.byteAt_add (by omega)]
    simp [chain, wordBytes]
  have hnumber : m.wordAt (a + 2) = some l.number := by
    have hskip := h.skip (k := 2) (by omega)
    rw [chain, List.append_assoc, List.append_assoc, List.drop_left' (by rfl)] at hskip
    exact hskip.wordAt_wordBytes
  have htext : m.between (a + 4) (l.next a - 1) = l.text := by
    have hskip := h.skip (k := 4) (by omega)
    rw [chain, List.append_assoc, List.drop_left' (by rfl)] at hskip
    have hend : l.next a - 1 = a + UInt16.ofNat 4 + UInt16.ofNat l.text.length := by
      rw [next_sub_one, Nat.add_comm, UInt16.ofNat_add, UInt16.add_assoc]
    rw [hend]
    exact hskip.between_eq
  rw [lineAt, if_pos hzero, hnumber, htext]
  rfl

theorem linked_eq (h : Holds m a (chain a (l :: ls))) : m.linked a = some (l.next a) := h.link

/-- Where the text has no zero byte, the first one ends the line. -/
theorem scanned_eq (h : Holds m a (chain a (l :: ls))) (hl : 0 ∉ l.text) : m.scanned a = some (l.next a) := by
  have hlength := length_lt_chain a l ls
  have hskip := h.skip (k := 4) (by omega)
  rw [chain, List.append_assoc, List.drop_left' (by rfl)] at hskip
  have hfind : (l.text ++ 0 :: chain (l.next a) ls).findIdx? (· == 0) = some l.text.length := by
    have htext : l.text.findIdx? (· == 0) = none := by
      rw [List.findIdx?_eq_none_iff]
      intro v hv
      rw [beq_eq_false_iff_ne]
      rintro rfl
      exact hl hv
    simp [List.findIdx?_append, List.findIdx?_cons, htext]
  rw [scanned, show a + 4 = a + UInt16.ofNat 4 from rfl, hskip.drop, hfind]
  rfl

/-- A walk along a chain visits its lines. -/
theorem walk_eq {next : UInt16 → Option UInt16} {P : Line → Prop}
    (hnext : ∀ {a l ls}, Holds m a (chain a (l :: ls)) → P l → next a = some (l.next a))
    (h : Holds m a (chain a ls)) (hls : ∀ l ∈ ls, P l) : m.walk next a = some (found a ls, stop a ls) := by
  induction ls generalizing a with
  | nil =>
    rw [walk, h.ended]
    rfl
  | cons l ls ih =>
    have hl := hnext h (hls l List.mem_cons_self)
    have hrest := ih h.next fun l hl => hls l (List.mem_cons_of_mem _ hl)
    have habove := h.toNat_next
    have hzero : l.next a ≠ 0 := by
      intro hzero
      rw [hzero, UInt16.toNat_zero] at habove
      omega
    rw [walk, h.link, Option.bind_some, if_neg hzero, hl, Option.bind_some, dif_pos (by omega), h.lineAt_next, hrest]
    rfl

theorem walk_linked (h : Holds m a (chain a ls)) : m.walk m.linked a = some (found a ls, Program.stop a ls) :=
  h.walk_eq (P := fun _ => True) (fun h _ => h.linked_eq) fun _ _ => trivial

theorem walk_scanned (h : Holds m a (chain a ls)) (hplain : ∀ l ∈ ls, 0 ∉ l.text) :
    m.walk m.scanned a = some (found a ls, Program.stop a ls) :=
  h.walk_eq (fun h hl => h.scanned_eq hl) hplain

/-- Each line of a chain, and its end, is above the lines before it. -/
theorem found_pairwise (h : Holds m a (chain a ls)) :
    ((found a ls).map Found.address ++ [Program.stop a ls]).Pairwise (· < ·) := by
  have hle {a : UInt16} {ls : List Line} (h : Holds m a (chain a ls)) :
      ∀ b ∈ (found a ls).map Found.address ++ [Program.stop a ls], a ≤ b := by
    induction ls generalizing a with
    | nil => simp [found, Program.stop]
    | cons l ls ih =>
      have habove := h.toNat_next
      intro b hb
      rw [found, Program.stop, List.map_cons, List.cons_append, List.mem_cons] at hb
      obtain rfl | hb := hb
      · exact UInt16.le_refl _
      · have hrest := UInt16.le_iff_toNat_le.1 (ih h.next b hb)
        rw [UInt16.le_iff_toNat_le]
        omega
  induction ls generalizing a with
  | nil => simp [found, Program.stop]
  | cons l ls ih =>
    have habove := h.toNat_next
    rw [found, Program.stop, List.map_cons, List.cons_append, List.pairwise_cons]
    refine ⟨fun b hb => ?_, ih h.next⟩
    have hrest := UInt16.le_iff_toNat_le.1 (hle h.next b hb)
    change a < b
    rw [UInt16.lt_iff_toNat_lt]
    omega

theorem stop (h : Holds m a (chain a ls)) : Holds m (Program.stop a ls) [0, 0] := by
  induction ls generalizing a with
  | nil => exact h
  | cons l ls ih => exact ih h.next

end Holds

/-- An image that fits into memory holds its chain there. -/
theorem holds_image (p : Program) (hfits : p.start.toNat + p.image.length - 2 ≤ 0xFFFF) :
    Holds ⟨p.start, p.image⟩ p.start (chain p.start p.lines) := by
  have hlength : p.image.length = 2 + (chain p.start p.lines).length := by
    rw [Program.image, List.length_append, length_wordBytes]
  have hoffset : offset ⟨p.start, p.image⟩ p.start = 2 := by simp [offset]
  constructor
  · rw [hoffset]
    rfl
  · rw [hoffset, ← hlength]
  · change p.image.length ≤ 0x10001
    omega
  · omega

end Loaded

/-- The program that is made of lines. -/
def ofLines (start : UInt16) (ls : List Line) : Program :=
  ls.foldl (fun p l => p.addLine l.number l.text) { start }

theorem ofLines_eq (start : UInt16) (ls : List Line) : ofLines start ls = ⟨start, ls⟩ := by
  have hall (before : List Line) :
      ls.foldl (fun p l => p.addLine l.number l.text) (⟨start, before⟩ : Program) = ⟨start, before ++ ls⟩ := by
    induction ls generalizing before with
    | nil => simp
    | cons l ls ih =>
      rw [List.foldl_cons, List.append_cons]
      exact ih _
  exact hall []

/-- The image of a program is built with every link in range. Where it fits into memory, it begins with its load
address, following the links from there visits the program's lines, each above the one before, and the chain ends with
a link of zero at the end of the image. -/
theorem image_walked (start : UInt16) (ls : List Line)
    (hfits : start.toNat + (ofLines start ls).image.length - 2 ≤ 0xFFFF) :
    let image := (ofLines start ls).image
    let m : Loaded := ⟨start, image⟩
    (∃ slot, ls.foldlM Builder.addLine? (Builder.new start) = some ⟨start, image, slot⟩) ∧
      image.take 2 = wordBytes start ∧
      ∃ found last, m.walk m.linked start = some (found, last) ∧ found.map Found.line = ls ∧
        (found.map Found.address ++ [last]).Pairwise (· < ·) ∧
        m.wordAt last = some 0 ∧ m.offset last + 2 = image.length ∧ image.drop (m.offset last) = [0, 0] := by
  have hbuilt : ls.foldlM Builder.addLine? (Builder.new start) = some (Builder.of (ofLines start ls)) :=
    Builder.new_addLines? start ls
  rw [ofLines_eq] at hfits hbuilt ⊢
  intro image m
  have hholds : m.Holds start (chain start ls) := Loaded.holds_image ⟨start, ls⟩ hfits
  exact ⟨⟨_, hbuilt⟩, rfl, found start ls, stop start ls, hholds.walk_linked, map_line_found start ls,
    hholds.found_pairwise, hholds.stop.wordAt_eq, hholds.stop.inside, hholds.stop.drop⟩

/-- Zero bytes in a text do not end it. -/
theorem image_walked_zeros :
    let ls : List Line := [⟨10, [0x00, 0x41, 0x00, 0x00, 0x00]⟩, ⟨20, []⟩]
    let m : Loaded := ⟨0x1001, (ofLines 0x1001 ls).image⟩
    (0x1001 : UInt16).toNat + m.image.length - 2 ≤ 0xFFFF ∧
      ∃ found last, m.walk m.linked 0x1001 = some (found, last) ∧ found.map Found.line = ls := by
  intro ls m
  have hfits : (0x1001 : UInt16).toNat + (ofLines 0x1001 ls).image.length - 2 ≤ 0xFFFF := by decide
  obtain ⟨-, -, found, last, hwalk, hlines, -⟩ := image_walked 0x1001 ls hfits
  exact ⟨hfits, found, last, hwalk, hlines⟩

end Vic20.Program
