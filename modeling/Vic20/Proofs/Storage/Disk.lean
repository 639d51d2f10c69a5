import Mathlib.Data.List.Infix
import Mathlib.Tactic.SplitIfs
import Vic20.Storage.Disk

/-! A disk in memory without failures. A change keeps the names, so that a file is found where it was. What can
be read on from a handle can still be read after other files have been made, emptied and written to. -/

namespace Vic20.Disk

open Storage

variable {d : Disk} {name : String} {file : Nat}

theorem map_name_change (d : Disk) (file : Nat) (f : Array UInt8 → Array UInt8) :
    (d.change file f).files.map File.name = d.files.map File.name := by
  apply Array.ext
  · simp [change]
  · intro i h _
    simp only [change, Array.getElem_map, Array.getElem_modify]
    split_ifs <;> rfl

theorem find?_eq (d : Disk) (name : String) :
    d.find? name = (d.files.map File.name).findIdx? (sameName · name) := by
  rw [Array.findIdx?_map]
  rfl

@[simp] theorem find?_change (d : Disk) (file : Nat) (f : Array UInt8 → Array UInt8) (name : String) :
    (d.change file f).find? name = d.find? name := by
  rw [find?_eq, map_name_change, ← find?_eq]

theorem lt_of_find? (h : d.find? name = some file) : file < d.files.size := by
  obtain ⟨hlt, -⟩ := Array.findIdx?_eq_some_iff_getElem.1 h
  exact hlt

theorem content_change (h : file < d.files.size) (f : Array UInt8 → Array UInt8) :
    (d.change file f).content file = f (d.content file) := by
  simp [content, change, Array.getElem_modify_self, h]

theorem content_change_of_ne {k : Nat} (h : file ≠ k) (f : Array UInt8 → Array UInt8) :
    (d.change file f).content k = d.content k := by
  simp [content, change, Array.getElem?_modify, h]

theorem fails_of_failing (h : d.failing = []) (operation : Operation) : d.fails operation = false := by
  simp [fails, h]

theorem sameName_refl (name : String) : sameName name name = true := by simp [sameName]

theorem find?_add (h : d.find? name = none) : (d.add name #[]).find? name = some d.files.size := by
  unfold find? at *
  rw [add, Array.findIdx?_push, h]
  simp [sameName_refl]

/-- A file opened for writing is there, and empty. -/
theorem openFile_write (hok : d.failing = []) (name : String) :
    ∃ file e, d.openFile name .write = (.ok ⟨file, 0⟩, e) ∧ e.failing = [] ∧ e.find? name = some file ∧
      e.content file = #[] := by
  have hopen : ¬d.fails .open = true := by simp [fails_of_failing hok]
  unfold openFile
  rw [if_neg hopen]
  cases hfind : d.find? name with
  | some file =>
    refine ⟨file, d.change file fun _ => #[], rfl, hok, ?_, content_change (lt_of_find? hfind) _⟩
    rw [find?_change, hfind]
  | none => exact ⟨d.files.size, d.add name #[], rfl, hok, find?_add hfind, by simp [content, add]⟩

theorem openFile_read (hok : d.failing = []) (hfind : d.find? name = some file) :
    d.openFile name .read = (.ok ⟨file, 0⟩, d) := by
  unfold openFile
  rw [if_neg (by simp [fails_of_failing hok]), hfind]

theorem size_eq (hok : d.failing = []) (h : Handle) :
    Storage.size d h = (.ok (d.content h.file).size, d) := by
  change (if d.fails .seek = true then _ else _, d) = _
  rw [if_neg (by simp [fails_of_failing hok])]

theorem write_eq (hok : d.failing = []) (h : Handle) (bytes : List UInt8) :
    d.write h bytes = (.ok h, d.change h.file (· ++ bytes)) := by
  rw [write, if_neg (by simp [fails_of_failing hok])]

theorem read_eq {h : Handle} {v : UInt8} (hok : d.fails .read = false) (hlimit : d.readLimit = none)
    (hv : (d.content h.file)[h.position]? = some v) :
    d.read h = .ok (v, { h with position := h.position + 1 }) := by
  rw [read, if_neg (by simp [hok, hlimit]), hv]

theorem failing_write (disk : Disk) (file : Handle) (bytes : List UInt8) :
    (disk.write file bytes).2.failing = disk.failing := by
  unfold Disk.write
  split_ifs <;> rfl

theorem failing_openFile (disk : Disk) (name : String) :
    (disk.openFile name .write).2.failing = disk.failing := by
  unfold Disk.openFile
  split_ifs
  · rfl
  · split <;> rfl

/-! ### Reading on -/

/-- These bytes can be read on from a handle, and its file is not what any of the names stands for. -/
structure Reads (d : Disk) (h : Handle) (names : List String) (bytes : List UInt8) : Prop where
  sound : d.fails .read = false
  unlimited : d.readLimit = none
  ahead : bytes <+: (d.content h.file).toList.drop h.position
  unnamed : ∀ name ∈ names, d.find? name ≠ some h.file

section Reads

variable {h : Handle} {names : List String} {bytes : List UInt8}

theorem Reads.mono (hr : d.Reads h names bytes) {fewer : List String} (hsub : fewer ⊆ names) :
    d.Reads h fewer bytes :=
  ⟨hr.sound, hr.unlimited, hr.ahead, fun name hname => hr.unnamed name (hsub hname)⟩

/-- The first byte is read, and the rest can be read on. -/
theorem Reads.read {v : UInt8} (hr : d.Reads h names (v :: bytes)) :
    d.read h = .ok (v, { h with position := h.position + 1 }) ∧
      d.Reads { h with position := h.position + 1 } names bytes := by
  obtain ⟨rest, hrest⟩ := hr.ahead
  have hv : (d.content h.file)[h.position]? = some v := by
    rw [← Array.getElem?_toList]
    have := congrArg (·[0]?) hrest
    simpa using this.symm
  refine ⟨read_eq hr.sound hr.unlimited hv, hr.sound, hr.unlimited, ⟨rest, ?_⟩, hr.unnamed⟩
  rw [← List.drop_drop, ← hrest]
  rfl

/-- Where there is something to read there is a file. -/
theorem Reads.there (hr : d.Reads h names bytes) (hne : bytes ≠ []) : h.file < d.files.size := by
  refine Nat.lt_of_not_le fun hge => ?_
  have hempty : d.content h.file = #[] := by
    rw [content, Array.getElem?_eq_none hge]
    rfl
  have hahead := hr.ahead
  rw [hempty] at hahead
  exact hne (by simpa using hahead)

/-- Another file may change in any way, and this one grow. -/
theorem Reads.change (hr : d.Reads h names bytes) (hne : bytes ≠ []) {file : Nat}
    {f : Array UInt8 → Array UInt8} (hf : file = h.file → ∀ old, old.toList <+: (f old).toList) :
    (d.change file f).Reads h names bytes := by
  refine ⟨hr.sound, hr.unlimited, hr.ahead.trans ?_, by simpa using hr.unnamed⟩
  by_cases hfile : file = h.file
  · subst hfile
    rw [content_change (hr.there hne)]
    exact (hf rfl _).drop _
  · rw [content_change_of_ne hfile]

theorem find?_add_ne {k : Nat} (hk : k < d.files.size) {other : String} (h : d.find? other ≠ some k)
    (name : String) (content : Array UInt8) : (d.add name content).find? other ≠ some k := by
  unfold find? at *
  rw [add, Array.findIdx?_push]
  cases hfound : d.files.findIdx? (sameName ·.name other) with
  | some file => simpa [hfound] using h
  | none =>
    simp only [Option.none_or]
    split_ifs
    · exact fun he => absurd (Option.some.inj he) (Nat.ne_of_gt hk)
    · simp

theorem Reads.openFile (hr : d.Reads h names bytes) (hne : bytes ≠ []) (hname : name ∈ names) :
    (d.openFile name .write).2.Reads h names bytes := by
  unfold Disk.openFile
  split_ifs
  · exact hr
  · split
    · exact hr
    · exact hr
    · rename_i file hfind
      exact hr.change hne (f := fun _ => #[]) fun hfile => absurd (hfile ▸ hfind) (hr.unnamed name hname)
    · refine ⟨hr.sound, hr.unlimited, ?_, fun other hother =>
        find?_add_ne (hr.there hne) (hr.unnamed other hother) name #[]⟩
      have hcontent : (d.add name #[]).content h.file = d.content h.file := by
        simp [content, add, Array.getElem?_push, Nat.ne_of_lt (hr.there hne)]
      rw [hcontent]
      exact hr.ahead

theorem Reads.write (hr : d.Reads h names bytes) (hne : bytes ≠ []) (g : Handle) (written : List UInt8) :
    (d.write g written).2.Reads h names bytes := by
  unfold Disk.write
  split_ifs
  · exact hr
  · exact hr.change hne (f := (· ++ written)) fun _ old => by simp

end Reads

end Vic20.Disk
