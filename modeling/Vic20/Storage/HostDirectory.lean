import Vic20.Storage.Disk

/-! A directory of a host's file system. A name is resolved against the root as a path is: it may have
several parts, a part `..` goes up, and an absolute name starts at the top. Parts are looked up one after
the other, so that a `..` behind a missing directory leads nowhere. Files are looked up for reading
without regard to case where no exact entry exists. The file system has directories and files only: no
symbolic links, no permissions, and no names that are not texts. -/

namespace Vic20

namespace HostDirectory

/-- The parts of a path, from the top. -/
abbrev Path := List String

inductive Content where
  | directory
  | file (bytes : Array UInt8)
  deriving Repr

end HostDirectory

open HostDirectory in
/-- A file system and the path of the directory in it that is served. `nodes` holds all directories
and files below the top in the order of their making. -/
structure HostDirectory where
  root : String
  nodes : List (Path × Nat) := []
  contents : Array Content := #[]

namespace HostDirectory

open Storage

/-- The longest part of a path, in bytes. -/
def maxPart : Nat := 255

/-- The longest written path, in bytes. -/
def maxPath : Nat := 4095

/-- The size that a directory reports as a file. -/
def directorySize : Nat := 4096

/-- The parts of a written path. Repeated and trailing separators leave empty parts. -/
def parts (path : String) : Path := (path.toList.splitOn '/').map String.ofList

/-- A part that leads nowhere else. -/
def isIdle (part : String) : Bool := part == "" || part == "."

/-- The parts of a written path that can be looked up. -/
def checkedParts (path : String) : Except Fault Path :=
  if path.contains '\x00' then .error .nulInName
  else if maxPath < path.utf8ByteSize then .error .nameTooLong
  else .ok (parts path)

/-- The parts before the last one that is not empty. -/
def before (ps : Path) : Path := ((ps.reverse.dropWhile (· == "")).drop 1).reverse

/-- A name behind the root, or the name itself if it is absolute. -/
def join (root name : String) : String :=
  if name.startsWith "/" then name
  else if root.endsWith "/" then root ++ name
  else root ++ "/" ++ name

def node? (fs : HostDirectory) (path : Path) : Option Nat := (fs.nodes.find? (·.1 == path)).map (·.2)

/-- What is at a path. The top is a directory. -/
def content? (fs : HostDirectory) (path : Path) : Option Content :=
  if path.isEmpty then some .directory else fs.node? path >>= (fs.contents[·]?)

/-- Goes one part on. The part may name what does not exist. -/
def step (fs : HostDirectory) (position : Path) (part : String) : Except Fault Path :=
  match fs.content? position with
  | none => .error .noSuchFile
  | some (.file _) => .error .notDirectory
  | some .directory =>
    if isIdle part then .ok position
    else if part = ".." then .ok position.dropLast
    else if maxPart < part.utf8ByteSize then .error .nameTooLong
    else .ok (position ++ [part])

/-- Follows the parts of a path. The last may name what does not exist. -/
def walk (fs : HostDirectory) (position ps : Path) : Except Fault Path := ps.foldlM fs.step position

def locate (fs : HostDirectory) (path : String) : Except Fault Path := checkedParts path >>= fs.walk []

def isThere (fs : HostDirectory) (path : String) : Bool :=
  match fs.locate path with
  | .ok p => (fs.content? p).isSome
  | .error _ => false

/-- The names of the entries of the root, with what they are. -/
def children (fs : HostDirectory) : Except Fault (List (String × Content)) := do
  let root ← fs.locate fs.root
  match fs.content? root with
  | none => .error .noSuchFile
  | some (.file _) => .error .notDirectory
  | some .directory =>
    .ok (fs.nodes.filterMap fun (path, id) =>
      if path.dropLast == root then
        match path.getLast?, fs.contents[id]? with
        | some name, some c => some (name, c)
        | _, _ => none
      else none)

def Content.entry (name : String) : Content → Entry
  | .directory => ⟨name, true, 0⟩
  | .file bytes => ⟨name, false, bytes.size⟩

/-- Directories first, then by name. -/
def entryLe (a b : Entry) : Bool :=
  if a.isDirectory == b.isDirectory then a.name ≤ b.name else a.isDirectory

/-- The path that a name is read from: its own, or else that of the first entry of the root that differs
in case only. -/
def resolve (fs : HostDirectory) (name : String) : String :=
  let exact := join fs.root name
  if fs.isThere exact then exact
  else match fs.children with
    | .error _ => exact
    | .ok cs => match cs.find? (sameName ·.1 name) with
      | some (found, _) => join fs.root found
      | none => exact

def entries (fs : HostDirectory) : Except Fault (List Entry) := do
  let cs ← fs.children
  return (cs.map fun (name, c) => c.entry name).mergeSort entryLe

/-- Adds a node at a path. -/
def add (fs : HostDirectory) (path : Path) (c : Content) : HostDirectory :=
  { fs with nodes := fs.nodes ++ [(path, fs.contents.size)], contents := fs.contents.push c }

def openRead (fs : HostDirectory) (name : String) : Except Fault Handle := do
  let path ← fs.locate (fs.resolve name)
  match fs.node? path with
  | some id => .ok ⟨id, 0⟩
  | none => if path.isEmpty then .ok ⟨fs.contents.size, 0⟩ else .error .noSuchFile

/-- The path at which a written path makes a file. A path that ends in a separator names a directory. -/
def locateNew (fs : HostDirectory) (path : String) : Except Fault Path := do
  let ps ← checkedParts path
  if path.endsWith "/" then
    let _ ← fs.walk [] (before ps ++ [""])
    .error .isDirectory
  else fs.walk [] ps

/-- Makes the file of a path, or empties it. -/
def create (fs : HostDirectory) (path : String) : Except Fault Handle × HostDirectory :=
  match fs.locateNew path with
  | .error e => (.error e, fs)
  | .ok p =>
    match fs.content? p, fs.node? p with
    | some (.file _), some id =>
      (.ok ⟨id, 0⟩, { fs with contents := fs.contents.setIfInBounds id (.file #[]) })
    | some _, _ => (.error .isDirectory, fs)
    | none, _ => (.ok ⟨fs.contents.size, 0⟩, fs.add p (.file #[]))

def openFile (fs : HostDirectory) (name : String) : Access → Except Fault Handle × HostDirectory
  | .read => (fs.openRead name, fs)
  | .write => fs.create (join fs.root name)

def size (fs : HostDirectory) (h : Handle) : Nat :=
  match fs.contents[h.file]? with
  | some (.file bytes) => bytes.size
  | _ => directorySize

def read (fs : HostDirectory) (h : Handle) : Except Fault (UInt8 × Handle) :=
  match fs.contents[h.file]? with
  | some (.file bytes) => match bytes[h.position]? with
    | some v => .ok (v, { h with position := h.position + 1 })
    | none => .error .endOfFile
  | _ => .error .isDirectory

/-- Bytes put over a file's from a position on. A gap before it is filled with zeros. -/
def overlay (old : Array UInt8) (position : Nat) (bytes : List UInt8) : Array UInt8 :=
  old.extract 0 position ++ Array.replicate (position - old.size) 0 ++ bytes ++
    old.extract (position + bytes.length) old.size

def write (fs : HostDirectory) (h : Handle) (bytes : List UInt8) : Except Fault Handle × HostDirectory :=
  (.ok { h with position := h.position + bytes.length },
    { fs with contents := fs.contents.modify h.file fun
      | .file old => .file (overlay old h.position bytes)
      | .directory => .directory })

instance : Storage HostDirectory where
  directory fs := fs.root
  entries fs := (fs.entries, fs)
  openFile := openFile
  size fs h := (.ok (fs.size h), fs)
  read fs h := (fs.read h, fs)
  write := write
  flush fs _ := (.ok (), fs)

/-- The whole content of a file. -/
def readAll (fs : HostDirectory) (name : String) : Except Fault (Array UInt8) := do
  let h ← fs.openRead name
  match fs.contents[h.file]? with
  | some (.file bytes) => .ok bytes
  | _ => .error .isDirectory

/-- Makes the directories that are missing on a way, from the top. Nothing is made behind a part that
cannot be passed. -/
def makeAlong (fs : HostDirectory) (position : Path) : Path → HostDirectory
  | [] => fs
  | part :: rest =>
    match fs.step position part with
    | .error _ => fs
    | .ok p => makeAlong (if (fs.content? p).isSome then fs else fs.add p .directory) p rest

/-- Makes a directory at a path, and those on the way to it. -/
def makeDirectory (fs : HostDirectory) (path : String) : HostDirectory :=
  match checkedParts path with
  | .error _ => fs
  | .ok ps => fs.makeAlong [] ps

/-- The root as written from a directory above it, without idle parts at its two ends. -/
def rootBelow (fs : HostDirectory) (above : String) : String :=
  let turned (ps : Path) : Path := (ps.dropWhile isIdle).reverse
  "/".intercalate (turned (turned (parts (fs.root.drop above.length).toString)))

end HostDirectory
end Vic20
