import Mathlib.Data.List.Forall2
import Mathlib.Data.List.TakeWhile
import Vic20.Drive.Listing
import Vic20.Proofs.Program.Walk
import Vic20.Proofs.Text.Utf8

/-! What a listing shows. A walk along its lines visits a header and then one line for each entry that is not a
directory with a dot in front. The names are cut in bytes, and stand in columns. -/

namespace Vic20.Listing

open Storage Program

/-! ### Parts of names -/

/-- The part of a path that no separator follows. -/
structure IsLastPart (path part : List Char) : Prop where
  plain : '/' ∉ part
  last : part = path ∨ ∃ front, path = front ++ '/' :: part

/-- A name in its two parts. A file's name ends at its first dot, and what follows is its extension. A directory has
its whole name and a mark. -/
inductive Parts (e : Entry) : List Char → Option (List Char) → Prop
  | directory (he : e.isDirectory = true) : Parts e e.name.toList (some ['D', 'I', 'R'])
  | plain (he : e.isDirectory = false) (hdot : '.' ∉ e.name.toList) : Parts e e.name.toList none
  | dotted {stem extension : List Char} (he : e.isDirectory = false) (hdot : '.' ∉ stem)
      (hname : e.name.toList = stem ++ '.' :: extension) : Parts e stem (some extension)

/-- A directory whose name begins with a dot. -/
def isDotDirectory (e : Entry) : Bool := e.isDirectory && e.name.toList.head? == some '.'

/-- The bytes that show a name. -/
def shown (name : List Char) : List UInt8 := (Utf8.bytes (String.ofList name)).map upper

/-- A header has a number of zero, and the last part of the path in quotes, which are in columns 1 and 18. -/
structure ShowsDirectory (directory : String) (long : Bool) (l : Line) : Prop where
  number : l.number = 0
  front : l.text.take 2 = [reverseOn, quote]
  name : ∃ part, IsLastPart directory.toList part ∧
    (l.text.drop 2).take 16 = (shown part).take 16 ++ List.replicate (16 - (shown part).length) space
  back : l.text.drop 18 = quote :: if long then List.replicate 4 space ++ [0x32, 0x41] else []

/-- A line has the blocks for its number, and the name in quotes. An extension is in a column of its own. -/
structure ShowsEntry (long : Bool) (e : Entry) (l : Line) : Prop where
  number : l.number.toNat = if e.isDirectory then 0 else min (max 1 (e.size / 256)) 65535
  text :
    let lead := if l.number < 10 then 3 else if l.number < 100 then 2 else 1
    ∃ stem extension, Parts e stem extension ∧
      let front := List.replicate lead space ++ [quote] ++ (shown stem).take (if long then 16 else 10) ++ [quote]
      match extension with
      | none => l.text = front
      | some name => ∃ gap, l.text = front ++ List.replicate gap space ++ shown name ∧
          front.length + gap = (if long then 19 else 13) + lead

/-- Up to a character, and from there on. -/
theorem takeWhile_cases (c : Char) (cs : List Char) :
    (c ∉ cs ∧ cs.takeWhile (· ≠ c) = cs ∧ cs.dropWhile (· ≠ c) = []) ∨
      ∃ front back, c ∉ front ∧ cs = front ++ c :: back ∧ cs.takeWhile (· ≠ c) = front ∧
        cs.dropWhile (· ≠ c) = c :: back := by
  have hpass {front : List Char} (hfront : c ∉ front) : ∀ d ∈ front, decide (d ≠ c) = true := by
    rintro d hd
    rw [decide_eq_true_eq]
    rintro rfl
    exact hfront hd
  by_cases hc : c ∈ cs
  · right
    obtain ⟨front, back, hcs, hfront⟩ := List.eq_append_cons_of_mem hc
    refine ⟨front, back, hfront, hcs, ?_, ?_⟩
    · rw [hcs, List.takeWhile_append_of_pos (hpass hfront)]
      simp
    · rw [hcs, List.dropWhile_append_of_pos (hpass hfront)]
      simp
  · exact .inl ⟨hc, List.takeWhile_eq_self_iff.2 (hpass hc), List.dropWhile_eq_nil_iff.2 (hpass hc)⟩

theorem isLastPart_lastPart (path : List Char) : IsLastPart path (lastPart path) := by
  unfold lastPart
  obtain ⟨hplain, htake, -⟩ | ⟨front, back, hplain, hpath, htake, -⟩ := takeWhile_cases '/' path.reverse
  · rw [htake]
    exact ⟨by simpa using hplain, .inl path.reverse_reverse⟩
  · have hpath : path = back.reverse ++ '/' :: front.reverse := by
      rw [← path.reverse_reverse, hpath]
      simp
    rw [htake]
    exact ⟨by simpa using hplain, .inr ⟨back.reverse, hpath⟩⟩

theorem parts_splitName {e : Entry} (he : e.isDirectory = false) :
    Parts e (splitName e.name.toList).1 (splitName e.name.toList).2 := by
  unfold splitName
  obtain ⟨hplain, -, hdrop⟩ | ⟨stem, extension, hdot, hname, htake, hdrop⟩ := takeWhile_cases '.' e.name.toList
  · rw [hdrop]
    exact .plain he hplain
  · rw [hdrop, htake]
    exact .dotted he hdot hname

theorem IsLastPart.subset {path part : List Char} (h : IsLastPart path part) : part ⊆ path := by
  obtain rfl | ⟨front, rfl⟩ := h.last
  · exact List.Subset.refl _
  · simp

/-! ### Lines -/

theorem zero_mem_map_upper {bytes : List UInt8} : 0 ∈ bytes.map upper ↔ 0 ∈ bytes := by
  have hupper (v : UInt8) : upper v = 0 ↔ v = 0 := by
    obtain ⟨v⟩ := v
    revert v
    decide +kernel
  simp [List.mem_map, hupper]

theorem zero_notMem_shown {name : List Char} {whole : String} (hwhole : 0 ∉ Utf8.bytes whole)
    (hname : name ⊆ whole.toList) : 0 ∉ shown name := by
  intro hzero
  have hmem := Utf8.mem_bytes_of_subset hname (zero_mem_map_upper.1 hzero)
  rw [String.ofList_toList] at hmem
  exact hwhole hmem

theorem map_upper_padTo (width : Nat) (bytes : List UInt8) :
    (padTo width bytes).map upper = padTo width (bytes.map upper) := by
  simp [padTo, show upper space = space from rfl]

theorem length_padTo {width : Nat} {bytes : List UInt8} (h : bytes.length ≤ width) :
    (padTo width bytes).length = width := by
  simp only [padTo, List.length_append, List.length_replicate]
  omega

theorem header_eq (directory : String) (long : Bool) :
    header directory long = [reverseOn, quote] ++ padTo 16 ((shown (lastPart directory.toList)).take 16) ++
      quote :: if long then List.replicate 4 space ++ [0x32, 0x41] else [] := by
  have hformat : Utf8.bytes "2A" = [0x32, 0x41] := by
    rw [show "2A" = String.ofList ['2', 'A'] from rfl, Utf8.bytes_ofList]
    decide
  let name := (Utf8.bytes (String.ofList (lastPart directory.toList))).take 16
  have hlength : (reverseOn :: quote :: padTo 16 name ++ [quote]).length = 19 := by
    simp [length_padTo (List.length_take_le 16 _), name]
  have hwide : padTo 23 (reverseOn :: quote :: padTo 16 name ++ [quote]) =
      reverseOn :: quote :: padTo 16 name ++ [quote] ++ List.replicate 4 space := by
    rw [padTo, hlength]
  have hname : (padTo 16 name).map upper = padTo 16 ((shown (lastPart directory.toList)).take 16) := by
    rw [map_upper_padTo, shown, List.map_take]
  have hline : (reverseOn :: quote :: padTo 16 name ++ [quote]).map upper =
      [reverseOn, quote] ++ padTo 16 ((shown (lastPart directory.toList)).take 16) ++ [quote] := by
    rw [List.map_append, List.map_cons, List.map_cons, hname]
    rfl
  cases long with
  | false => exact hline
  | true =>
    change (padTo 23 (reverseOn :: quote :: padTo 16 name ++ [quote]) ++ Utf8.bytes "2A").map upper = _
    rw [hwide, hformat, List.map_append, List.map_append, hline]
    simp [upper, space]

theorem showsDirectory_header (directory : String) (long : Bool) :
    ShowsDirectory directory long ⟨0, header directory long⟩ := by
  have hlength := length_padTo (List.length_take_le 16 (shown (lastPart directory.toList)))
  rw [header_eq]
  refine ⟨rfl, rfl, ⟨_, isLastPart_lastPart _, ?_⟩, ?_⟩
  · change (padTo 16 _ ++ _).take 16 = _
    have hpad (n : Nat) : 16 - min 16 n = 16 - n := by omega
    rw [List.take_left' hlength, padTo, List.length_take, hpad]
  · exact List.drop_left' (by simp [hlength])

theorem entry_hidden {e : Entry} {long : Bool} (h : isDotDirectory e = true) : entry e long = none := if_pos h

theorem map_upper_quoted (n width : Nat) (stem : List Char) :
    (List.replicate n space ++ quote :: (Utf8.bytes (String.ofList stem)).take width ++ [quote]).map upper =
      List.replicate n space ++ [quote] ++ (shown stem).take width ++ [quote] := by
  simp [shown, upper, space, quote]

theorem number_of_count {e : Entry} {count : Nat} (h : count = if e.isDirectory then 0 else blocks e.size) :
    (UInt16.ofNat count).toNat = count ∧ count = if e.isDirectory then 0 else min (max 1 (e.size / 256)) 65535 := by
  unfold blocks at h
  rw [UInt16.toNat_ofNat']
  split_ifs at h ⊢ <;> omega

/-- A line as it is made from a count of blocks and the parts of a name. -/
theorem showsEntry_of {e : Entry} {stem : List Char} {extension : Option (List Char)} {count : Nat} (long : Bool)
    (hcount : count = if e.isDirectory then 0 else blocks e.size) (hparts : Parts e stem extension) :
    let bytes (cs : List Char) := Utf8.bytes (String.ofList cs)
    let start := List.replicate (lead count) space ++ quote :: (bytes stem).take (nameWidth long) ++ [quote]
    ShowsEntry long e ⟨UInt16.ofNat count, (match extension with
      | some cs => padTo (extensionColumn long + lead count) start ++ bytes cs
      | none => start).map upper⟩ := by
  intro bytes start
  obtain ⟨hnumber, hblocks⟩ := number_of_count hcount
  refine ⟨hnumber.trans hblocks, ?_⟩
  intro width
  have hwidth : lead count = width := by
    simp only [lead, width, UInt16.lt_iff_toNat_lt, hnumber]
    rfl
  refine ⟨stem, extension, hparts, ?_⟩
  intro front
  have hstart : start.map upper = front := by
    rw [map_upper_quoted, hwidth]
    rfl
  cases extension with
  | none => exact hstart
  | some name =>
    -- the quoted name ends before the column, even where it is cut
    have hfront : front.length ≤ extensionColumn long + width := by
      cases long <;> simp [front, extensionColumn] <;> omega
    refine ⟨extensionColumn long + width - front.length, ?_, Nat.add_sub_of_le hfront⟩
    change (padTo (extensionColumn long + lead count) start ++ bytes name).map upper = _
    rw [List.map_append, map_upper_padTo, hstart, hwidth]
    rfl

theorem entry_shown {e : Entry} (long : Bool) (h : isDotDirectory e = false) :
    ∃ l, entry e long = some l ∧ ShowsEntry long e l := by
  unfold isDotDirectory at h
  unfold entry
  rw [if_neg (Bool.eq_false_iff.1 h)]
  cases he : e.isDirectory with
  | false => exact ⟨_, rfl, showsEntry_of long (by rw [he]) (parts_splitName he)⟩
  | true => exact ⟨_, rfl, showsEntry_of long (by rw [he]) (.directory he)⟩

theorem ShowsDirectory.plain {directory : String} {long : Bool} {l : Line} (h : ShowsDirectory directory long l)
    (hdirectory : 0 ∉ Utf8.bytes directory) : 0 ∉ l.text := by
  obtain ⟨part, hpart, hname⟩ := h.name
  have hshown := zero_notMem_shown hdirectory hpart.subset
  intro hzero
  rw [← List.take_append_drop 2 l.text, ← List.take_append_drop 16 (l.text.drop 2), List.drop_drop, h.front, hname,
    h.back] at hzero
  cases long <;> simp [reverseOn, quote, space] at hzero <;> exact hshown (List.mem_of_mem_take hzero)

theorem ShowsEntry.plain {e : Entry} {long : Bool} {l : Line} (h : ShowsEntry long e l)
    (hname : 0 ∉ Utf8.bytes e.name) : 0 ∉ l.text := by
  obtain ⟨stem, extension, hparts, htext⟩ := h.text
  have hstem : 0 ∉ shown stem := by
    apply zero_notMem_shown hname
    cases hparts with
    | directory he => exact List.Subset.refl _
    | plain he hdot => exact List.Subset.refl _
    | dotted he hdot hsplit => simp [hsplit]
  have hfront (n : Nat) : 0 ∉ (shown stem).take n := fun hzero => hstem (List.mem_of_mem_take hzero)
  cases extension with
  | none =>
    rw [htext]
    simp [space, quote, hfront]
  | some extension =>
    have hextension : 0 ∉ shown extension := by
      cases hparts with
      | directory he =>
        rw [shown, Utf8.bytes_ofList]
        decide
      | dotted he hdot hsplit => exact zero_notMem_shown hname (by simp [hsplit])
    obtain ⟨gap, htext, -⟩ := htext
    rw [htext]
    simp [space, quote, hfront, hextension]

theorem entry_plain {e : Entry} {long : Bool} {l : Line} (hl : entry e long = some l)
    (hname : 0 ∉ Utf8.bytes e.name) : 0 ∉ l.text := by
  cases h : isDotDirectory e with
  | true =>
    rw [entry_hidden h] at hl
    cases hl
  | false =>
    obtain ⟨l', hl', hshows⟩ := entry_shown long h
    obtain rfl := Option.some.inj (hl.symm.trans hl')
    exact hshows.plain hname

/-! ### Listings -/

theorem entries_shown (entries : List Entry) (long : Bool) :
    List.Forall₂ (ShowsEntry long) (entries.filter (!isDotDirectory ·)) (entries.filterMap (entry · long)) := by
  induction entries with
  | nil => exact .nil
  | cons e entries ih =>
    cases h : isDotDirectory e with
    | true =>
      rw [List.filter_cons_of_neg (by simp [h]), List.filterMap_cons, entry_hidden h]
      exact ih
    | false =>
      obtain ⟨l, hl, hshows⟩ := entry_shown long h
      rw [List.filter_cons_of_pos (by simp [h]), List.filterMap_cons, hl]
      exact .cons hshows ih

/-- A listing that fits into memory is walked by its links and by the ends of its texts alike, where no name has a zero
byte. Its lines are a header and then one for each entry that is not a directory with a dot in front. -/
theorem listing_walked (directory : String) (entries : List Entry) (long : Bool)
    (hdirectory : 0 ∉ Utf8.bytes directory) (hnames : ∀ e ∈ entries, 0 ∉ Utf8.bytes e.name)
    (hfits : address.toNat + (build directory entries long).length - 2 ≤ 0xFFFF) :
    let m : Loaded := ⟨address, build directory entries long⟩
    ∃ head rest last, m.walk m.linked address = some (head :: rest, last) ∧
      m.walk m.scanned address = some (head :: rest, last) ∧
      ShowsDirectory directory long head.line ∧
      List.Forall₂ (ShowsEntry long) (entries.filter (!isDotDirectory ·)) (rest.map Found.line) := by
  intro m
  have hheader := showsDirectory_header directory long
  have hentries := entries_shown entries long
  have hholds := Loaded.holds_image (program directory entries long) hfits
  have hplain : ∀ l ∈ (program directory entries long).lines, 0 ∉ l.text := by
    intro l hl
    obtain rfl | hl := List.mem_cons.1 hl
    · exact hheader.plain hdirectory
    · obtain ⟨e, he, hl⟩ := List.mem_filterMap.1 hl
      exact entry_plain hl (hnames e he)
  refine ⟨_, _, _, hholds.walk_linked, hholds.walk_scanned hplain, hheader, ?_⟩
  rw [map_line_found]
  exact hentries

theorem listing_walked_hidden :
    let entries : List Entry := [⟨"a.prg", false, 300⟩, ⟨".git", true, 0⟩, ⟨"old", true, 0⟩]
    let m : Loaded := ⟨address, build "/games" entries false⟩
    0 ∉ Utf8.bytes "/games" ∧ (∀ e ∈ entries, 0 ∉ Utf8.bytes e.name) ∧
      address.toNat + (build "/games" entries false).length - 2 ≤ 0xFFFF ∧
      ∃ head rest last, m.walk m.linked address = some (head :: rest, last) ∧
        ShowsDirectory "/games" false head.line ∧ rest.length = 2 := by
  intro entries m
  have hdirectory : 0 ∉ Utf8.bytes "/games" := by decide +kernel
  have hnames : ∀ e ∈ entries, 0 ∉ Utf8.bytes e.name := by decide +kernel
  have hfits : address.toNat + (build "/games" entries false).length - 2 ≤ 0xFFFF := by decide +kernel
  obtain ⟨head, rest, last, hlinked, -, hhead, hrest⟩ := listing_walked "/games" entries false hdirectory hnames hfits
  refine ⟨hdirectory, hnames, hfits, head, rest, last, hlinked, hhead, ?_⟩
  have hlength := hrest.length_eq
  rw [List.length_map] at hlength
  exact hlength.symm.trans (by decide +kernel)

end Vic20.Listing
