import Vic20.Storage.Basic

/-! Two storages, of which one is in use. When the other is taken into use, an open file stays with the
storage it is from: those of the first have even numbers, those of the second odd ones. -/

namespace Vic20.Storage

structure Pair (α β : Type) where
  first : α
  second : β
  usesSecond : Bool := false

namespace Pair

variable {α β γ : Type}

/-- A handle of the first storage among those of both. -/
def ofFirst (h : Handle) : Handle := { h with file := 2 * h.file }

/-- A handle of the second storage among those of both. -/
def ofSecond (h : Handle) : Handle := { h with file := 2 * h.file + 1 }

/-- Whether a handle is of the second storage. -/
def isOfSecond (h : Handle) : Bool := h.file % 2 == 1

/-- The handle in its own storage. -/
def own (h : Handle) : Handle := { h with file := h.file / 2 }

theorem own_ofFirst (h : Handle) : own (ofFirst h) = h := by simp [own, ofFirst]

theorem own_ofSecond (h : Handle) : own (ofSecond h) = h := by
  simp only [own, ofSecond]
  congr 1
  omega

theorem isOfSecond_ofFirst (h : Handle) : isOfSecond (ofFirst h) = false := by
  simp [isOfSecond, ofFirst]

theorem isOfSecond_ofSecond (h : Handle) : isOfSecond (ofSecond h) = true := by
  simp [isOfSecond, ofSecond]

def onFirst (p : Pair α β) (f : α → γ × α) : γ × Pair α β :=
  let (r, s) := f p.first
  (r, { p with first := s })

def onSecond (p : Pair α β) (f : β → γ × β) : γ × Pair α β :=
  let (r, s) := f p.second
  (r, { p with second := s })

def openFile [Storage α] [Storage β] (p : Pair α β) (name : String) (access : Access) :
    Except Fault Handle × Pair α β :=
  if p.usesSecond then
    let (r, p) := p.onSecond (Storage.openFile · name access)
    (r.map ofSecond, p)
  else
    let (r, p) := p.onFirst (Storage.openFile · name access)
    (r.map ofFirst, p)

def read [Storage α] [Storage β] (p : Pair α β) (h : Handle) :
    Except Fault (UInt8 × Handle) × Pair α β :=
  if isOfSecond h then
    let (r, p) := p.onSecond (Storage.read · (own h))
    (r.map fun (v, h) => (v, ofSecond h), p)
  else
    let (r, p) := p.onFirst (Storage.read · (own h))
    (r.map fun (v, h) => (v, ofFirst h), p)

def write [Storage α] [Storage β] (p : Pair α β) (h : Handle) (bytes : List UInt8) :
    Except Fault Handle × Pair α β :=
  if isOfSecond h then
    let (r, p) := p.onSecond (Storage.write · (own h) bytes)
    (r.map ofSecond, p)
  else
    let (r, p) := p.onFirst (Storage.write · (own h) bytes)
    (r.map ofFirst, p)

instance [Storage α] [Storage β] : Storage (Pair α β) where
  directory p := if p.usesSecond then Storage.directory p.second else Storage.directory p.first
  entries p := if p.usesSecond then p.onSecond Storage.entries else p.onFirst Storage.entries
  openFile := openFile
  size p h :=
    if isOfSecond h then p.onSecond (Storage.size · (own h)) else p.onFirst (Storage.size · (own h))
  read := read
  write := write
  flush p h :=
    if isOfSecond h then p.onSecond (Storage.flush · (own h)) else p.onFirst (Storage.flush · (own h))

end Pair
end Vic20.Storage
