import Mathlib.Tactic.Common
import Vic20.Proofs.Storage.Disk
import Vic20.Storage.HostDirectory
import Vic20.Text.Utf8

/-! Where the names lead that a guest sends. A name is a path: its parts are followed from the root, or from the top
if it is absolute, and nothing checks that they stay in the root. A name without a separator is an entry of the root.
The file system has neither symbolic links nor permissions, and its names are texts. Where a host has links, a name
without a separator too can lead out of the root. -/

namespace Vic20

/-! ### Parts -/

namespace HostDirectory

open Storage

theorem splitOn_plain {ys : List Char} (h : '/' ∉ ys) : ys.splitOn '/' = [ys] := by
  rw [List.splitOn_eq_splitOnP]
  exact List.splitOnP_eq_singleton fun c hc => beq_false_of_ne fun heq => h (heq ▸ hc)

/-- Text without a separator goes on with the last part. -/
theorem splitOn_append (xs : List Char) {ys : List Char} (h : '/' ∉ ys) :
    ∃ before last, xs.splitOn '/' = before ++ [last] ∧ (xs ++ ys).splitOn '/' = before ++ [last ++ ys] := by
  induction xs with
  | nil => exact ⟨[], [], rfl, splitOn_plain h⟩
  | cons c xs ih =>
    obtain ⟨before, last, hxs, hxys⟩ := ih
    rw [List.splitOn_eq_splitOnP] at hxs hxys
    rw [List.cons_append, List.splitOn_eq_splitOnP, List.splitOn_eq_splitOnP,
      List.splitOnP_cons_eq_if_modifyHead, List.splitOnP_cons_eq_if_modifyHead, hxs, hxys]
    by_cases hc : (c == '/') = true
    · rw [if_pos hc, if_pos hc]
      exact ⟨[] :: before, last, rfl, rfl⟩
    · rw [if_neg hc, if_neg hc]
      cases before with
      | nil => exact ⟨[], c :: last, rfl, rfl⟩
      | cons first before => exact ⟨(c :: first) :: before, last, rfl, rfl⟩

/-- A part that is neither idle nor goes up. -/
def Proper (part : String) : Prop := isIdle part = false ∧ part ≠ ".."

theorem proper_of_long {part : String} (h : 2 < part.toList.length) : Proper part := by
  have hne {other : String} (hother : other.toList.length ≤ 2) : part ≠ other := by
    rintro rfl
    omega
  refine ⟨?_, hne (by decide)⟩
  rw [isIdle, beq_false_of_ne (hne (by decide)), beq_false_of_ne (hne (by decide))]
  rfl

/-- A name with an ending of three or more characters, none of them a separator. -/
def Ending (name : String) : Prop := ∃ xs ys, name.toList = xs ++ ys ∧ '/' ∉ ys ∧ 2 < ys.length

theorem Ending.parts {name : String} (h : Ending name) :
    ∃ before last, parts name = before ++ [last] ∧ Proper last := by
  obtain ⟨xs, ys, hname, hys, hlength⟩ := h
  obtain ⟨before, last, -, hsplit⟩ := splitOn_append xs hys
  refine ⟨before.map String.ofList, String.ofList (last ++ ys), ?_, proper_of_long ?_⟩
  · rw [HostDirectory.parts, hname, hsplit, List.map_append, List.map_singleton]
  · rw [String.toList_ofList, List.length_append]
    omega

theorem parts_plain {name : String} (h : '/' ∉ name.toList) : parts name = [name] := by
  rw [parts, splitOn_plain h, List.map_singleton, String.ofList_toList]

/-- Behind a separator the parts go on. -/
theorem parts_append (xs : List Char) (name : String) {path : String} (h : path.toList = xs ++ '/' :: name.toList) :
    parts path = (xs.splitOn '/').map String.ofList ++ parts name := by
  have hsplit : (xs ++ '/' :: name.toList).splitOnP (· == '/') =
      xs.splitOnP (· == '/') ++ name.toList.splitOnP (· == '/') :=
    List.splitOnP_append_cons _ _ (beq_self_eq_true '/')
  simp only [parts, h, List.splitOn_eq_splitOnP, hsplit, List.map_append]

/-! ### Ways -/

/-- What succeeds has succeeded in each of its steps. -/
theorem of_bind {α β : Type} {x : Except Fault α} {f : α → Except Fault β} {b : β} (h : x >>= f = .ok b) :
    ∃ a, x = .ok a ∧ f a = .ok b := by
  cases x with
  | error e => cases h
  | ok a => exact ⟨a, rfl, h⟩

variable (fs : HostDirectory)

theorem walk_append (position before ps : Path) :
    fs.walk position (before ++ ps) = fs.walk position before >>= (fs.walk · ps) := List.foldlM_append

/-- A way goes on from a directory. -/
theorem directory_of_step {position p : Path} {part : String} (h : fs.step position part = .ok p) :
    fs.content? position = some .directory := by
  unfold step at h
  split at h
  · cases h
  · cases h
  · assumption

theorem step_proper {position p : Path} {part : String} (hproper : Proper part)
    (h : fs.step position part = .ok p) : p = position ++ [part] := by
  have hdirectory := fs.directory_of_step h
  unfold step at h
  rw [hdirectory] at h
  dsimp only at h
  rw [if_neg (by rw [hproper.1]; decide), if_neg hproper.2] at h
  split at h
  · cases h
  · exact (Except.ok.inj h).symm

/-- A way that ends in a proper part leads to an entry of the directory that the parts before it lead to. -/
theorem walk_proper {position p before : Path} {last : String} (hproper : Proper last)
    (h : fs.walk position (before ++ [last]) = .ok p) :
    ∃ directory, fs.walk position before = .ok directory ∧ fs.content? directory = some .directory ∧
      p = directory ++ [last] := by
  rw [walk_append] at h
  obtain ⟨directory, hdirectory, hlast⟩ := of_bind h
  obtain ⟨q, hstep, hq⟩ := of_bind hlast
  obtain rfl := Except.ok.inj hq
  exact ⟨directory, hdirectory, fs.directory_of_step hstep, fs.step_proper hproper hstep⟩

theorem walk_nonempty {position p : Path} {ps : Path} (hne : ps ≠ []) (h : fs.walk position ps = .ok p) :
    fs.content? position = some .directory := by
  cases ps with
  | nil => exact absurd rfl hne
  | cons part ps =>
    obtain ⟨q, hstep, -⟩ := of_bind h
    exact fs.directory_of_step hstep

theorem walk_idle {position : Path} (h : fs.content? position = some .directory) :
    fs.walk position [""] = .ok position := by
  simp [walk, step, h, isIdle, bind, Except.bind, pure, Except.pure]

/-! ### Names -/

/-- Where the parts of a name before the last lead: from the top if it is absolute, or else from the root. -/
def leads (name : String) : Except Fault Path :=
  if name.startsWith "/" then fs.walk [] (parts name).dropLast
  else fs.walk [] (parts fs.root) >>= (fs.walk · (parts name).dropLast)

theorem toList_join (root : String) {name : String} (h : name.startsWith "/" = false) :
    ∃ xs, (join root name).toList = xs ++ '/' :: name.toList ∧ (root.toList = xs ∨ root.toList = xs ++ ['/']) := by
  unfold join
  rw [h, if_neg Bool.false_ne_true]
  split
  · next hends =>
    rw [String.endsWith, String.Slice.endsWith_string_iff, String.copy_toSlice] at hends
    obtain ⟨xs, hxs⟩ := hends
    refine ⟨xs, ?_, .inr hxs.symm⟩
    rw [String.toList_append, ← hxs]
    simp
  · refine ⟨root.toList, ?_, .inl rfl⟩
    simp [String.toList_append]

/-- A name is followed from where it starts. -/
theorem walk_join {name : String} {p : Path} (hname : Ending name)
    (h : fs.walk [] (parts (join fs.root name)) = .ok p) :
    ∃ directory last, fs.leads name = .ok directory ∧ (parts name).getLast? = some last ∧
      fs.content? directory = some .directory ∧ p = directory ++ [last] := by
  obtain ⟨before, last, hparts, hproper⟩ := hname.parts
  have hbefore : (parts name).dropLast = before := by rw [hparts, List.dropLast_concat]
  have hlast : (parts name).getLast? = some last := by rw [hparts, List.getLast?_concat]
  unfold leads
  rw [hbefore]
  cases habsolute : name.startsWith "/" with
  | true =>
    rw [join, habsolute, if_pos rfl, hparts] at h
    obtain ⟨directory, hdirectory, hcontent, hp⟩ := fs.walk_proper hproper h
    exact ⟨directory, last, hdirectory, hlast, hcontent, hp⟩
  | false =>
    obtain ⟨xs, hjoin, hroot⟩ := toList_join fs.root habsolute
    rw [parts_append xs name hjoin, hparts, walk_append] at h
    obtain ⟨root, hxs, hwalk⟩ := of_bind h
    have hroot : fs.walk [] (parts fs.root) = .ok root := by
      rcases hroot with hroot | hroot
      · rw [parts, hroot, hxs]
      · have hcontent := fs.walk_nonempty (List.append_ne_nil_of_right_ne_nil _ (List.cons_ne_nil _ _)) hwalk
        rw [parts_append xs "" (by rw [hroot]; rfl), walk_append, hxs]
        exact fs.walk_idle hcontent
    obtain ⟨directory, hdirectory, hcontent, hp⟩ := fs.walk_proper hproper hwalk
    rw [hroot]
    exact ⟨directory, last, hdirectory, hlast, hcontent, hp⟩

/-! ### Case -/

theorem toLower_eq_separator {c : Char} : c.toLower = '/' ↔ c = '/' := by
  refine ⟨fun h => ?_, fun h => by rw [h]; rfl⟩
  unfold Char.toLower at h
  split at h
  · next hupper =>
    have hlow : 65 ≤ c.val.toNat := hupper.1
    have hhigh : c.val.toNat ≤ 90 := hupper.2
    have hval : (c.val + 32).toNat = 47 := congrArg (fun c => c.val.toNat) h
    rw [UInt32.toNat_add, show UInt32.toNat 32 = 32 from rfl] at hval
    omega
  · exact h

theorem sameName_iff {a b : String} : sameName a b = true ↔ a.toList.map Char.toLower = b.toList.map Char.toLower :=
  beq_iff_eq

theorem mem_toLower {xs : List Char} : '/' ∈ xs.map Char.toLower ↔ '/' ∈ xs := by
  simp [List.mem_map, toLower_eq_separator]

theorem separator_of_sameName {a b : String} (h : sameName a b = true) : '/' ∈ a.toList ↔ '/' ∈ b.toList := by
  rw [← mem_toLower, sameName_iff.1 h, mem_toLower]

theorem Ending.of_sameName {found name : String} (hname : Ending name) (h : sameName found name = true) :
    Ending found := by
  obtain ⟨xs, ys, hsplit, hys, hlength⟩ := hname
  have hlower := sameName_iff.1 h
  rw [hsplit, List.map_append, List.map_eq_append_iff] at hlower
  obtain ⟨xs', ys', hfound, -, hys'⟩ := hlower
  refine ⟨xs', ys', hfound, fun hmem => hys ?_, ?_⟩
  · rw [← mem_toLower, ← hys', mem_toLower]
    exact hmem
  · rw [← List.length_map (f := Char.toLower), hys', List.length_map]
    exact hlength

/-! ### Opening -/

theorem checkedParts_ok {path : String} {ps : Path} (h : checkedParts path = .ok ps) : ps = parts path := by
  unfold checkedParts at h
  split at h
  · cases h
  · split at h
    · cases h
    · exact (Except.ok.inj h).symm

theorem walk_of_locate {path : String} {p : Path} (h : fs.locate path = .ok p) : fs.walk [] (parts path) = .ok p := by
  obtain ⟨ps, hps, hwalk⟩ := of_bind h
  exact checkedParts_ok hps ▸ hwalk

theorem walk_of_locateNew {path : String} {p : Path} (h : fs.locateNew path = .ok p) :
    fs.walk [] (parts path) = .ok p := by
  obtain ⟨ps, hps, hwalk⟩ := of_bind h
  split at hwalk
  · obtain ⟨-, -, herror⟩ := of_bind hwalk
    cases herror
  · exact checkedParts_ok hps ▸ hwalk

theorem locateNew_eq {path : String} (h : path.endsWith "/" = false) : fs.locateNew path = fs.locate path := by
  unfold locateNew locate
  rw [h]
  rfl

/-- What is read is the name itself, or an entry that differs in case only. -/
theorem resolve_eq (name : String) : ∃ found, sameName found name = true ∧ fs.resolve name = join fs.root found := by
  have hself : ∃ found, sameName found name = true ∧ join fs.root name = join fs.root found :=
    ⟨name, Disk.sameName_refl name, rfl⟩
  unfold resolve
  dsimp only
  split
  · exact hself
  · split
    · exact hself
    · split
      · next found c hfind =>
        have hsame := List.find?_some (p := fun entry : String × Content => sameName entry.1 name) hfind
        exact ⟨found, hsame, rfl⟩
      · exact hself

theorem mem_of_node? {p : Path} {id : Nat} (h : fs.node? p = some id) : (p, id) ∈ fs.nodes := by
  unfold node? at h
  obtain ⟨⟨q, id'⟩, hfind, rfl⟩ := Option.map_eq_some_iff.1 h
  have hq : q = p := by simpa using List.find?_some hfind
  exact hq ▸ List.mem_of_find?_eq_some hfind

theorem node?_add_of_ne {p path : Path} (c : Content) (h : path ≠ p) : (fs.add p c).node? path = fs.node? path := by
  simp [node?, add, List.find?_append, beq_false_of_ne (Ne.symm h)]

/-- A file system with a file opened, at an entry of a directory. Nothing else in it is made or changed. -/
structure OpenedAt (fs fs' : HostDirectory) (file : Nat) (path : Path) : Prop where
  there : (path, file) ∈ fs'.nodes
  others : ∀ other, other ≠ path → fs'.node? other = fs.node? other
  contents : ∀ id, id ≠ file → fs'.contents[id]? = fs.contents[id]?

theorem openRead_ok {name : String} {h : Handle} (hopen : fs.openRead name = .ok h) :
    ∃ path, fs.locate (fs.resolve name) = .ok path ∧ (path = [] ∨ OpenedAt fs fs h.file path) := by
  obtain ⟨path, hpath, hnode⟩ := of_bind hopen
  refine ⟨path, hpath, ?_⟩
  split at hnode
  · next id hid =>
    obtain rfl := Except.ok.inj hnode
    exact .inr ⟨mem_of_node? fs hid, fun _ _ => rfl, fun _ _ => rfl⟩
  · split at hnode
    · next hempty => exact .inl (List.isEmpty_iff.1 hempty)
    · cases hnode

theorem create_ok {path : String} {h : Handle} (hopen : (fs.create path).1 = .ok h) :
    ∃ p, fs.locateNew path = .ok p ∧ OpenedAt fs (fs.create path).2 h.file p := by
  unfold create at hopen ⊢
  cases hp : fs.locateNew path with
  | error e => rw [hp] at hopen; cases hopen
  | ok p =>
    rw [hp] at hopen
    refine ⟨p, rfl, ?_⟩
    dsimp only at hopen ⊢
    split at hopen
    · next id hcontent hid =>
      obtain rfl := Except.ok.inj hopen
      refine ⟨mem_of_node? fs hid, fun _ _ => rfl, fun other hother => ?_⟩
      exact Array.getElem?_setIfInBounds_ne (Ne.symm hother)
    · cases hopen
    · obtain rfl := Except.ok.inj hopen
      refine ⟨List.mem_append_right _ List.mem_cons_self, fun other hother => fs.node?_add_of_ne _ hother, ?_⟩
      intro id hid
      exact Array.getElem?_push.trans (if_neg hid)

theorem create_error {path : String} {e : Fault} (hopen : (fs.create path).1 = .error e) : (fs.create path).2 = fs := by
  unfold create at hopen ⊢
  cases hp : fs.locateNew path with
  | error e => rfl
  | ok p =>
    rw [hp] at hopen
    dsimp only at hopen ⊢
    split at hopen
    · cases hopen
    · rfl
    · cases hopen

/-! ### The guest's names -/

/-- What the drive opens for the name that a guest has sent. -/
def guestName (bytes : List UInt8) : String := Utf8.text bytes ++ ".PRG"

theorem ending_guestName (bytes : List UInt8) : Ending (guestName bytes) :=
  ⟨(Utf8.text bytes).toList, ".PRG".toList, String.toList_append, by decide, by decide⟩

theorem separator_guestName {bytes : List UInt8} (h : '/' ∉ (Utf8.text bytes).toList) :
    '/' ∉ (guestName bytes).toList := by
  rw [guestName, String.toList_append, List.mem_append]
  exact fun hmem => hmem.elim h (by decide)

/-- A name without a separator leads nowhere but to the root. -/
theorem leads_plain {name : String} (h : '/' ∉ name.toList) : fs.leads name = fs.walk [] (parts fs.root) := by
  have hrelative : name.startsWith "/" = false := by
    rw [Bool.eq_false_iff]
    intro habsolute
    rw [String.startsWith_string_iff] at habsolute
    obtain ⟨rest, hrest⟩ := habsolute
    exact h (hrest ▸ List.mem_append_left rest (by decide))
  unfold leads
  rw [hrelative, parts_plain h, if_neg Bool.false_ne_true]
  cases fs.walk [] (parts fs.root) <;> rfl

/-- What a guest opens is an entry of the directory that the parts of its name lead to, which is the root if the name
has no separator. A name is read without regard to case. Nothing else in the file system is made or changed, and
nothing at all when it is not opened. There are no symbolic links to follow and no permissions to fail. -/
theorem guest_follows_parts (fs : HostDirectory) (bytes : List UInt8) (access : Access) :
    let (result, fs') := fs.openFile (guestName bytes) access
    (∀ e, result = .error e → fs' = fs) ∧ (access = .read → fs' = fs) ∧
    ∀ h, result = .ok h → ∃ found directory entry,
      sameName found (guestName bytes) = true ∧ (access = .write → found = guestName bytes) ∧
      fs.leads found = .ok directory ∧ (parts found).getLast? = some entry ∧
      fs.content? directory = some .directory ∧ OpenedAt fs fs' h.file (directory ++ [entry]) ∧
      ('/' ∉ (Utf8.text bytes).toList → fs.walk [] (parts fs.root) = .ok directory ∧ entry = found) := by
  have hplain {found entry : String} {directory : Path} (hsame : sameName found (guestName bytes) = true)
      (hleads : fs.leads found = .ok directory) (hentry : (parts found).getLast? = some entry)
      (h : '/' ∉ (Utf8.text bytes).toList) : fs.walk [] (parts fs.root) = .ok directory ∧ entry = found := by
    have hfound : '/' ∉ found.toList := fun hmem =>
      separator_guestName h ((separator_of_sameName hsame).1 hmem)
    rw [parts_plain hfound] at hentry
    exact ⟨fs.leads_plain hfound ▸ hleads, (Option.some.inj hentry).symm⟩
  cases access with
  | read =>
    refine ⟨fun _ _ => rfl, fun _ => rfl, fun h hopen => ?_⟩
    obtain ⟨path, hlocate, hopened⟩ := fs.openRead_ok hopen
    obtain ⟨found, hsame, hresolve⟩ := fs.resolve_eq (guestName bytes)
    rw [hresolve] at hlocate
    obtain ⟨directory, entry, hleads, hentry, hcontent, rfl⟩ :=
      fs.walk_join ((ending_guestName bytes).of_sameName hsame) (fs.walk_of_locate hlocate)
    refine ⟨found, directory, entry, hsame, nofun, hleads, hentry, hcontent, ?_, hplain hsame hleads hentry⟩
    exact hopened.resolve_left (List.append_ne_nil_of_right_ne_nil _ (List.cons_ne_nil _ _))
  | write =>
    refine ⟨fun e => fs.create_error, nofun, fun h hopen => ?_⟩
    obtain ⟨path, hlocate, hopened⟩ := fs.create_ok hopen
    obtain ⟨directory, entry, hleads, hentry, hcontent, rfl⟩ :=
      fs.walk_join (ending_guestName bytes) (fs.walk_of_locateNew hlocate)
    have hsame := Disk.sameName_refl (guestName bytes)
    exact ⟨guestName bytes, directory, entry, hsame, fun _ => rfl, hleads, hentry, hcontent, hopened,
      hplain hsame hleads hentry⟩

/-- A file system with a file in the root and one beside it. -/
def host : HostDirectory where
  root := "/media/disk"
  nodes := [(["media"], 0), (["media", "disk"], 1), (["media", "OUT.PRG"], 2), (["media", "disk", "IN.PRG"], 3)]
  contents := #[.directory, .directory, .file #[1, 2], .file #[3]]

theorem checkedParts_short {path : String} (hnul : '\x00' ∉ path.toList) (h : path.utf8ByteSize ≤ maxPath) :
    checkedParts path = .ok (parts path) := by
  rw [checkedParts, String.contains_char_eq, decide_eq_false hnul, if_neg Bool.false_ne_true,
    if_neg (Nat.not_lt.2 h)]

theorem guestName_in : guestName [0x49, 0x4E] = "IN.PRG" := by
  simp [guestName, Utf8.text, Utf8.decode, Utf8.lead?, Utf8.follow]

theorem guestName_out : guestName [0x2E, 0x2E, 0x2F, 0x4F, 0x55, 0x54] = "../OUT.PRG" := by
  simp [guestName, Utf8.text, Utf8.decode, Utf8.lead?, Utf8.follow]

theorem guest_follows_parts_in :
    (host.openFile (guestName [0x49, 0x4E]) .write).1 = .ok ⟨3, 0⟩ ∧
      ∃ directory entry, host.walk [] (parts host.root) = .ok directory ∧ entry = "IN.PRG" ∧
        OpenedAt host (host.openFile (guestName [0x49, 0x4E]) .write).2 3 (directory ++ [entry]) := by
  have hjoin : join host.root "IN.PRG" = "/media/disk/IN.PRG" := by decide +kernel
  have hchecked : checkedParts "/media/disk/IN.PRG" = .ok ["", "media", "disk", "IN.PRG"] :=
    checkedParts_short (by decide) (by decide)
  have hlocate : host.locateNew "/media/disk/IN.PRG" = .ok ["media", "disk", "IN.PRG"] := by
    rw [locateNew_eq _ (by decide +kernel), locate, hchecked]
    rfl
  have hopen : (host.openFile (guestName [0x49, 0x4E]) .write).1 = .ok ⟨3, 0⟩ := by
    rw [guestName_in, openFile, hjoin, create, hlocate]
    rfl
  have hplain : '/' ∉ (Utf8.text [0x49, 0x4E]).toList := by
    simp [Utf8.text, Utf8.decode, Utf8.lead?, Utf8.follow]
  obtain ⟨-, -, hok⟩ := guest_follows_parts host [0x49, 0x4E] .write
  obtain ⟨found, directory, entry, -, hfound, -, -, -, hopened, hroot⟩ := hok _ hopen
  obtain ⟨hdirectory, hentry⟩ := hroot hplain
  exact ⟨hopen, directory, entry, hdirectory, hentry.trans ((hfound rfl).trans guestName_in), hopened⟩

/-- A guest reads and empties a file that is not in the root. -/
theorem guest_leaves_root :
    host.walk [] (parts host.root) = .ok ["media", "disk"] ∧
      (host.openFile (guestName [0x2E, 0x2E, 0x2F, 0x4F, 0x55, 0x54]) .read).1 = .ok ⟨2, 0⟩ ∧
      (host.openFile (guestName [0x2E, 0x2E, 0x2F, 0x4F, 0x55, 0x54]) .write).1 = .ok ⟨2, 0⟩ ∧
      (host.openFile (guestName [0x2E, 0x2E, 0x2F, 0x4F, 0x55, 0x54]) .write).2.contents[2]? = some (.file #[]) ∧
      ∀ path, (path, 2) ∈ host.nodes → path.dropLast ≠ ["media", "disk"] := by
  have hjoin : join host.root "../OUT.PRG" = "/media/disk/../OUT.PRG" := by decide +kernel
  have hchecked : checkedParts "/media/disk/../OUT.PRG" = .ok ["", "media", "disk", "..", "OUT.PRG"] :=
    checkedParts_short (by decide) (by decide)
  have hlocate : host.locate "/media/disk/../OUT.PRG" = .ok ["media", "OUT.PRG"] := by
    rw [locate, hchecked]
    rfl
  have hlocateNew : host.locateNew "/media/disk/../OUT.PRG" = .ok ["media", "OUT.PRG"] := by
    rw [locateNew_eq _ (by decide +kernel), hlocate]
  have hthere : host.isThere "/media/disk/../OUT.PRG" = true := by
    rw [isThere, hlocate]
    rfl
  have hresolve : host.resolve "../OUT.PRG" = "/media/disk/../OUT.PRG" := by
    unfold resolve
    rw [hjoin, if_pos hthere]
  rw [guestName_out]
  refine ⟨rfl, ?_, ?_, ?_, ?_⟩
  · rw [openFile, openRead, hresolve, hlocate]
    rfl
  · rw [openFile, hjoin, create, hlocateNew]
    rfl
  · rw [openFile, hjoin, create, hlocateNew]
    rfl
  · intro path hpath
    have hout : path = ["media", "OUT.PRG"] := by simpa [host] using hpath
    rw [hout]
    decide

end HostDirectory
end Vic20
