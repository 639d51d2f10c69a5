import Vic20.Program.Lines

/-! A program's image, built line by line. The link of a line is not known before its text is, so each line leaves
room for a link behind it, which the next line fills in. What comes of it is the image of the program. -/

namespace Vic20.Program

/-! ### The parts of a chain -/

/-- The address after lines. -/
def stop (address : UInt16) : List Line → UInt16
  | [] => address
  | l :: ls => stop (l.next address) ls

/-- Lines with their links, without the end of the chain. -/
def records (address : UInt16) : List Line → List UInt8
  | [] => []
  | l :: ls => wordBytes (l.next address) ++ wordBytes l.number ++ l.text ++ 0 :: records (l.next address) ls

@[simp] theorem length_wordBytes (w : UInt16) : (wordBytes w).length = 2 := rfl

theorem chain_append (address : UInt16) (ls more : List Line) :
    chain address (ls ++ more) = records address ls ++ chain (stop address ls) more := by
  induction ls generalizing address with
  | nil => rfl
  | cons l ls ih => simp [chain, records, stop, ih]

theorem chain_eq (address : UInt16) (ls : List Line) : chain address ls = records address ls ++ [0, 0] := by
  simpa [chain] using chain_append address ls []

theorem length_chain (address : UInt16) (ls : List Line) :
    (chain address ls).length = (records address ls).length + 2 := by
  simp [chain_eq]

theorem stop_eq (address : UInt16) (ls : List Line) :
    stop address ls = address + UInt16.ofNat (records address ls).length := by
  induction ls generalizing address with
  | nil => simp [stop, records]
  | cons l ls ih =>
    have hlength : (records address (l :: ls)).length = l.text.length + 5 + (records (l.next address) ls).length := by
      simp [records]
      omega
    rw [stop, ih, hlength, UInt16.ofNat_add, Line.next, UInt16.add_assoc]

/-- The image of a program without the end of its chain. -/
def body (p : Program) : List UInt8 := wordBytes p.start ++ records p.start p.lines

theorem image_eq (p : Program) : p.image = p.body ++ [0, 0] := by
  simp [image, body, chain_eq]

/-- A line more is a link, a number, a text and a zero byte more. The link is to the address after them. -/
theorem body_addLine (p : Program) (number : UInt16) (text : List UInt8) :
    (p.addLine number text).body =
      p.body ++ wordBytes (p.start + UInt16.ofNat (p.body.length + text.length + 3)) ++
        (wordBytes number ++ text ++ [0]) := by
  obtain ⟨start, ls⟩ := p
  have hrecords : records start (ls ++ [⟨number, text⟩]) = records start ls ++
      wordBytes (Line.next ⟨number, text⟩ (stop start ls)) ++ (wordBytes number ++ text ++ [0]) := by
    have hchain := (chain_eq start (ls ++ [⟨number, text⟩])).symm.trans (chain_append start ls _)
    apply (List.append_left_inj [0, 0]).1
    simpa [chain] using hchain
  have hlink : start + UInt16.ofNat ((body ⟨start, ls⟩).length + text.length + 3) =
      Line.next ⟨number, text⟩ (stop start ls) := by
    have hlength : (body ⟨start, ls⟩).length + text.length + 3 = (records start ls).length + (text.length + 5) := by
      simp [body]
      omega
    rw [Line.next, stop_eq, hlength, UInt16.ofNat_add, UInt16.add_assoc]
  rw [hlink]
  simp [body, addLine, hrecords]

/-! ### The builder -/

/-- Overwrites bytes at an offset, if they are in range. -/
def overwrite? (image : List UInt8) (offset : Nat) (bytes : List UInt8) : Option (List UInt8) :=
  if offset + bytes.length ≤ image.length then
    some (image.take offset ++ bytes ++ image.drop (offset + bytes.length))
  else none

theorem overwrite?_append (front old back new : List UInt8) (h : new.length = old.length) :
    overwrite? (front ++ old ++ back) front.length new = some (front ++ new ++ back) := by
  have hfits : front.length + new.length ≤ (front ++ old ++ back).length := by
    simp only [List.length_append]
    omega
  rw [overwrite?, if_pos hfits, h, ← List.length_append, List.drop_left, List.append_assoc front old,
    List.take_left]

/-- An image under construction, and the offset of the link that the next line fills in. -/
structure Builder where
  start : UInt16
  bytes : List UInt8
  slot : Nat
  deriving DecidableEq, Repr

namespace Builder

def new (start : UInt16) : Builder := ⟨start, wordBytes start ++ [0, 0], 2⟩

/-- Puts a line at the end, links to the address after it from the slot, and leaves room for a link there. -/
def addLine? (b : Builder) (l : Line) : Option Builder :=
  let grown := b.bytes ++ (wordBytes l.number ++ l.text ++ [0])
  let link := b.start + UInt16.ofNat (grown.length - 2)
  (overwrite? grown b.slot (wordBytes link)).map fun bytes => ⟨b.start, bytes ++ [0, 0], grown.length⟩

/-- What has been built of a program. The slot is where its chain ends. -/
def of (p : Program) : Builder := ⟨p.start, p.image, p.body.length⟩

/-- A line more is a line more of the program, and the slot is in range. -/
theorem of_addLine? (p : Program) (l : Line) : (of p).addLine? l = some (of (p.addLine l.number l.text)) := by
  have hlength : (p.body ++ [0, 0] ++ (wordBytes l.number ++ l.text ++ [0])).length - 2 =
      p.body.length + l.text.length + 3 := by
    simp
    omega
  have hslot : (p.body ++ [0, 0] ++ (wordBytes l.number ++ l.text ++ [0])).length =
      (p.addLine l.number l.text).body.length := by
    rw [body_addLine]
    simp
    omega
  simp only [addLine?, of]
  rw [image_eq, hlength, overwrite?_append _ _ _ _ (by simp), Option.map_some, ← body_addLine, ← image_eq, hslot]
  rfl

/-- Line by line the image of the program is built. -/
theorem new_addLines? (start : UInt16) (ls : List Line) :
    ls.foldlM addLine? (new start) = some (of (ls.foldl (fun p l => p.addLine l.number l.text) { start })) := by
  have hall (p : Program) :
      ls.foldlM addLine? (of p) = some (of (ls.foldl (fun p l => p.addLine l.number l.text) p)) := by
    induction ls generalizing p with
    | nil => rfl
    | cons l ls ih =>
      rw [List.foldlM_cons, of_addLine?]
      exact ih _
  exact hall { start }

end Builder
end Vic20.Program
