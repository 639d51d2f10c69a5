import Vic20.Drive.Basic
import Vic20.Drive.Listing

/-! What the drive does with the bytes it receives. Under attention they are commands: LISTEN and TALK
with a device, the secondary address of a channel, OPEN and CLOSE. Otherwise they are a name or data,
collected until UNLISTEN. Channel zero reads and channel one writes; the others are not served. -/

namespace Vic20.Drive

open Storage

variable {σ : Type}

def setArbitration (d : Drive σ) (a : Arbitration) : Drive σ :=
  let d := if d.arbitration = a then d else d.note (.addressed d.arbitration a)
  { d with arbitration := a }

variable [Storage σ]

/-- Runs an operation of the storage, if there is any. -/
def useStorage {α : Type} (d : Drive σ) (f : σ → Except Fault α × σ) (wrap : Fault → StorageError) :
    Except StorageError α × Drive σ :=
  match d.storage with
  | none => (.error .detached, d)
  | some s =>
    let (r, s) := f s
    (r.mapError wrap, { d with storage := some s })

/-- A listing of the storage, ready to be sent. -/
def openListing (d : Drive σ) : Except StorageError Channel × Drive σ :=
  match d.useStorage Storage.entries .listing with
  | (.error e, d) => (.error e, d)
  | (.ok entries, d) =>
    let directory := (d.storage.map Storage.directory).getD ""
    (.ok (.directory (Listing.build directory entries d.longDirectory)), d)

/-- A file for reading, of which all bytes are left to send. -/
def openForReading (d : Drive σ) (name : String) : Except StorageError Channel × Drive σ :=
  match d.useStorage (Storage.openFile · name .read) (.opening name) with
  | (.error e, d) => (.error e, d)
  | (.ok file, d) =>
    match d.useStorage (Storage.size · file) (.opening name) with
    | (.error e, d) => (.error e, d)
    | (.ok size, d) => (.ok (.read file size), d)

def openForWriting (d : Drive σ) (name : String) : Except StorageError Channel × Drive σ :=
  match d.useStorage (Storage.openFile · name .write) (.opening name) with
  | (.error e, d) => (.error e, d)
  | (.ok file, d) => (.ok (.write file), d)

/-- Puts what was opened on a channel. A failure closes the channel, with nothing to send. -/
def install (d : Drive σ) (n : UInt8) : Except StorageError Channel → Drive σ
  | .ok c => { d with empty := c matches .read _ 0 }.setChannel n c
  | .error e => { d.note (.failed e) with empty := true }.setChannel n .closed

/-- Opens the channel in use by the name in the buffer. A name that begins with a dollar sign stands
for the directory; any other is completed by an extension. -/
def openChannel (d : Drive σ) : Drive σ :=
  match d.channel with
  | none => d
  | some n =>
    let name := Utf8.text d.buffer.toList
    let d := d.note (.opened n name)
    if n = 0 ∧ name.startsWith "$" then
      let (c, d) := d.openListing
      d.install n c
    else if n = 0 then
      let (c, d) := d.openForReading (name ++ ".PRG")
      d.install n c
    else if n = 1 then
      let (c, d) := d.openForWriting (name ++ ".PRG")
      d.install n c
    else d

/-- Notes a failure. -/
def noteError (d : Drive σ) {α : Type} : Except StorageError α → Drive σ
  | .ok _ => d
  | .error e => d.note (.failed e)

/-- Closes the channel in use. -/
def closeChannel (d : Drive σ) : Drive σ :=
  match d.channel, d.current? with
  | some n, some c =>
    let d := d.note (.closed n c.kind)
    let d := match c with
      | .write file =>
        let (r, d) := d.useStorage (Storage.flush · file) .writing
        d.noteError r
      | _ => d
    d.setChannel n .closed
  | _, _ => d

/-- Writes the buffer to the channel in use, if that is a file being written. -/
def writeChannel (d : Drive σ) : Drive σ :=
  match d.current? with
  | some (.write file) =>
    if d.buffer.isEmpty then d
    else
      match d.useStorage (Storage.write · file d.buffer.toList) .writing with
      | (.ok file, d) => d.setCurrent (.write file)
      | (.error e, d) => d.note (.failed e)
  | _ => d

/-- The end of LISTEN carries out what was asked for. -/
def unlisten (d : Drive σ) : Drive σ :=
  let d :=
    if d.arbitration = .opening ∧ !d.buffer.isEmpty then d.openChannel
    else if d.arbitration = .closing then d.closeChannel
    else d.writeChannel
  d.setArbitration .idle

/-- A command's kind is in its high three bits, an address in the rest. -/
def command (d : Drive σ) (v : UInt8) : Drive σ :=
  let d := d.note (.command v)
  let address := v &&& 0x1F
  match (v &&& 0xE0).toNat with
  | 0x20 =>
    let d :=
      if address = unaddress then d.unlisten
      else if address = d.device then d.setArbitration .listening
      else d
    { d with channel := none, buffer := #[] }
  | 0x40 =>
    let d := { d with channel := none }
    d.setArbitration (if address = d.device then .talking else .idle)
  | 0x60 =>
    if d.arbitration = .idle then d
    else
      let d := { d with channel := some address }
      if d.arbitration = .talking then d.enter .turnAround else d
  | 0xE0 =>
    let d := { d with channel := some (address &&& 0x0F) }
    d.setArbitration (if address &&& 0x10 != 0 then .opening else .closing)
  | _ => d

/-- A byte outside attention. A full buffer is written out if it is a file's; else the byte is lost. -/
def collect (d : Drive σ) (v : UInt8) : Drive σ :=
  if d.arbitration = .opening ∨ d.arbitration = .listening then
    let d :=
      if d.buffer.size = bufferSize ∧ d.arbitration = .listening ∧ d.current? matches some (.write _) then
        { d.writeChannel with buffer := #[] }
      else d
    if d.buffer.size < bufferSize then { d with buffer := d.buffer.push v } else d
  else d

/-- Takes a byte that the handshake has received. -/
def receive (d : Drive σ) (v : UInt8) : Drive σ := if d.atn then d.command v else d.collect v

/-- Gets the next byte to send on the channel in use, and whether it is the last. With nothing to send
the drive is left empty. -/
def fetch (d : Drive σ) : Drive σ :=
  match d.current? with
  | some (.directory (v :: rest)) => { d with byte := v, last := rest.isEmpty }.setCurrent (.directory rest)
  | some (.read file (remaining + 1)) =>
    match d.useStorage (Storage.read · file) .reading with
    | (.ok (v, file), d) => { d with byte := v, last := remaining == 0 }.setCurrent (.read file remaining)
    | (.error e, d) => { d.note (.failed e) with empty := true }
  | _ => { d with empty := true }

end Vic20.Drive
