import Vic20.Proofs.Drive.Invariant
import Vic20.Proofs.Serial.Load
import Vic20.Proofs.Serial.Save

/-! Conversations on other channels while channel zero has something left to send. They leave the channel and what
it has to send alone. But a drive is told by a single flag that there is nothing to send, for all its channels: a
channel that has nothing to send sets it, and only OPEN clears it. So a conversation elsewhere can silence channel
zero, and one byte is then lost with every session. -/

namespace Vic20.Serial

open Drive Storage

/-- A conversation with a channel: OPEN by a name, CLOSE, data sent to it, or TALK. -/
inductive Conversation where
  | opens (n : UInt8) (name : List UInt8)
  | closes (n : UInt8)
  | saves (n : UInt8) (data : List UInt8)
  | talks (n : UInt8) (limit : Nat)
  deriving DecidableEq, Repr

namespace Conversation

def hold {σ : Type} [Storage σ] (device : UInt8) : Conversation → Bus σ Unit
  | opens n name => do let _ ← openChannel device n name
  | closes n => do let _ ← closeChannel device n
  | saves n data => do let _ ← save device n data
  | talks n limit => do let _ ← talk device n limit

/-- Holds conversations one after another. -/
def holdAll {σ : Type} [Storage σ] (device : UInt8) : List Conversation → Bus σ Unit
  | [] => pure ()
  | c :: cs => do
    c.hold device
    holdAll device cs

/-- Neither OPEN nor CLOSE nor TALK of channel zero. -/
def Apart : Conversation → Prop
  | opens n _ | closes n | talks n _ => n ≠ 0 ∧ n < 16
  | saves n _ => n < 16

instance : DecidablePred Apart
  | opens n _ | closes n | talks n _ => inferInstanceAs (Decidable (n ≠ 0 ∧ n < 16))
  | saves n _ => inferInstanceAs (Decidable (n < 16))

end Conversation

/-- The file that a name given to OPEN stands for. -/
def program (name : List UInt8) : String := Utf8.text (name.take bufferSize) ++ ".PRG"

/-- The files that are opened for writing. -/
def Conversation.written : Conversation → List String
  | opens n name => if n = 1 then [program name] else []
  | _ => []

/-- Whether the drive believes that there is nothing to send after a conversation, from what it believed before.
`sound` tells that files can be opened. -/
def Conversation.silences (sound empty : Bool) : Conversation → Bool
  | opens n name => if n = 1 ∧ name ≠ [] then !sound else empty
  | closes _ | saves .. => empty
  | talks _ limit => if limit = 0 then empty else true

/-- Whether files can be opened on the drive's disk. -/
def opensFiles (d : Drive Disk) : Bool := d.storage.any fun disk => !disk.fails .open

variable {d e : Drive Disk} {device : UInt8} {names : List String} {rest : List UInt8} {sound empty : Bool}

/-- What other channels leave alone, and whether the drive believes that there is nothing to send. -/
structure Spared (d : Drive Disk) (device : UInt8) (names : List String) (rest : List UInt8)
    (sound empty : Bool) : Prop where
  device : d.device = device
  holds : Holds d names rest
  sound : opensFiles d = sound
  empty : d.empty = empty

theorem Spared.of_eq (h : Spared d device names rest sound empty) (hdevice : e.device = d.device)
    (hempty : e.empty = d.empty) (hstorage : e.storage = d.storage) (hchannels : e.channels = d.channels) :
    Spared e device names rest sound empty where
  device := hdevice.trans h.device
  holds := h.holds.of_eq hstorage hchannels
  sound := (congrArg (Option.any _) hstorage).trans h.sound
  empty := hempty.trans h.empty

theorem Spared.of_sameWork (h : Spared d device names rest sound empty) (hw : SameWork d e) :
    Spared e device names rest sound empty :=
  h.of_eq hw.device hw.empty hw.storage hw.channels

/-! ### Other channels -/

theorem Spared.setChannel (h : Spared d device names rest sound empty) {n : UInt8} (hn : n ≠ 0) (c : Channel) :
    Spared (d.setChannel n c) device names rest sound empty := by
  have hne : n.toNat ≠ 0 := fun h => hn (UInt8.toNat_inj.1 h)
  refine ⟨h.device, ?_, h.sound, h.empty⟩
  unfold Holds
  rw [channel?_setChannel_of_ne hne]
  exact h.holds

/-- Channel zero does not write. -/
theorem Holds.ne_zero (h : Holds d names rest) {n : UInt8} (hn : d.channel = some n) {file : Handle}
    (hc : d.current? = some (.write file)) : n ≠ 0 := by
  rintro rfl
  rw [current?_eq hn] at hc
  rcases h with h | ⟨_, _, _, h, -⟩ <;> exact absurd (hc.symm.trans h) (by simp)

/-- What the storage is used for leaves what can be read on as it is. -/
theorem Spared.useStorage (h : Spared d device names rest sound empty) {α : Type}
    (f : Disk → Except Fault α × Disk) (wrap : Fault → StorageError)
    (hfails : ∀ disk, (f disk).2.failing = disk.failing)
    (hreads : ∀ disk k, Disk.Reads disk k names rest → (f disk).2.Reads k names rest) :
    Spared (d.useStorage f wrap).2 device names rest sound empty := by
  unfold Drive.useStorage
  cases hs : d.storage with
  | none => exact h
  | some disk =>
    refine ⟨h.device, ?_, ?_, h.empty⟩
    · rcases h.holds with hchannel | ⟨disk', k, hs', hchannel, hr⟩
      · exact .inl hchannel
      · obtain rfl : disk = disk' := Option.some.inj (hs.symm.trans hs')
        exact .inr ⟨_, k, rfl, hchannel, hreads disk k hr⟩
    · have hsound := h.sound
      simpa [opensFiles, hs, Disk.fails, hfails] using hsound

theorem Spared.setCurrent (h : Spared d device names rest sound empty)
    (hn : ∀ n, d.channel = some n → n ≠ 0) (c : Channel) :
    Spared (d.setCurrent c) device names rest sound empty := by
  unfold Drive.setCurrent
  split
  · rename_i n hc
    exact h.setChannel (hn n hc) c
  · exact h

theorem Spared.writeChannel (h : Spared d device names rest sound empty) (hne : rest ≠ []) :
    Spared d.writeChannel device names rest sound empty := by
  unfold Drive.writeChannel
  split
  · rename_i file hc
    have hwritten := h.useStorage (Storage.write · file d.buffer.toList) .writing
      (fun disk => Disk.failing_write disk file d.buffer.toList)
      fun disk k hr => Disk.Reads.write hr hne file d.buffer.toList
    obtain ⟨r, storage, hr⟩ := useStorage_keeps d (Storage.write · file d.buffer.toList) .writing
    rw [hr] at hwritten ⊢
    split_ifs
    · exact h
    · cases r with
      | ok file' => exact hwritten.setCurrent (fun n hn => h.holds.ne_zero hn hc) _
      | error e => exact hwritten.of_eq rfl rfl rfl rfl
  · exact h

theorem Spared.keep (h : Spared d device names rest sound empty) (v : UInt8) :
    Spared (d.keep v) device names rest sound empty := by
  unfold Drive.keep
  split_ifs
  · exact h.of_eq rfl rfl rfl rfl
  · exact h

theorem Spared.collect (h : Spared d device names rest sound empty) (hne : rest ≠ []) (v : UInt8) :
    Spared (d.collect v) device names rest sound empty := by
  rw [collect_eq]
  split_ifs
  · refine Spared.keep ?_ v
    exact (h.writeChannel hne).of_eq rfl rfl rfl rfl
  · exact h.keep v
  · exact h

theorem Spared.collects (h : Spared d device names rest sound empty) (hne : rest ≠ []) (bytes : List UInt8) :
    Spared (bytes.foldl Drive.collect d) device names rest sound empty := by
  induction bytes generalizing d with
  | nil => exact h
  | cons v bytes ih => exact ih (h.collect hne v)

theorem Spared.closeChannel (h : Spared d device names rest sound empty) {n : UInt8} (hc : d.channel = some n)
    (hn : n ≠ 0) : Spared d.closeChannel device names rest sound empty := by
  unfold Drive.closeChannel
  rw [hc]
  split
  · rename_i m c hm _
    obtain rfl : n = m := Option.some.inj hm
    refine Spared.setChannel ?_ hn _
    cases c with
    | write file =>
      have hnote : Spared (d.note (.closed n (Channel.write file).kind)) device names rest sound empty :=
        h.of_eq rfl rfl rfl rfl
      have hflushed := hnote.useStorage (Storage.flush · file) .writing (fun _ => rfl)
        fun _ _ hr => hr
      obtain ⟨r, storage, hr⟩ := useStorage_keeps (d.note (.closed n (Channel.write file).kind))
        (Storage.flush · file) .writing
      rw [hr] at hflushed
      simp only [hr]
      cases r <;> exact hflushed.of_eq rfl rfl rfl rfl
    | _ => exact h.of_eq rfl rfl rfl rfl
  · exact h

/-- A file is opened for writing just if files can be opened. -/
theorem useStorage_openFile (d : Drive Disk) (name : String) :
    ∃ r storage, d.useStorage (Storage.openFile · name .write) (.opening name) = (r, { d with storage }) ∧
      match r with
      | .ok _ => opensFiles d = true
      | .error _ => opensFiles d = false := by
  obtain ⟨r, storage, hr⟩ :=
    useStorage_keeps d (Storage.openFile · name .write) (.opening name)
  refine ⟨r, storage, hr, ?_⟩
  obtain rfl : (d.useStorage (Storage.openFile · name .write) (.opening name)).1 = r := by rw [hr]
  cases hs : d.storage with
  | none => simp [Drive.useStorage, hs, opensFiles]
  | some disk =>
    have hopen : Storage.openFile disk name .write = disk.openFile name .write := rfl
    by_cases hfails : disk.fails .open = true
    · simp [Drive.useStorage, hs, hopen, Disk.openFile, hfails, Except.mapError, opensFiles]
    · cases hfind : disk.find? name <;>
        simp [Drive.useStorage, hs, hopen, Disk.openFile, hfails, hfind, Except.mapError, opensFiles]

/-- OPEN of channel one makes the drive believe that there is something to send just if a file can be opened. -/
theorem Spared.openChannel (h : Spared d device names rest sound empty) (hne : rest ≠ []) {n : UInt8}
    (hc : d.channel = some n) (hn : n ≠ 0)
    (hname : n = 1 → Utf8.text d.buffer.toList ++ ".PRG" ∈ names) :
    Spared d.openChannel device names rest sound (if n = 1 then !sound else empty) := by
  unfold Drive.openChannel
  rw [hc]
  simp only [hn, false_and, if_false]
  split_ifs with hone
  · subst hone
    have hnote : Spared (d.note (.opened 1 (Utf8.text d.buffer.toList))) device names rest sound empty :=
      h.of_eq rfl rfl rfl rfl
    have hopened := hnote.useStorage (Storage.openFile · (Utf8.text d.buffer.toList ++ ".PRG") .write)
      (.opening (Utf8.text d.buffer.toList ++ ".PRG"))
      (fun disk => Disk.failing_openFile disk _) fun disk k hr => Disk.Reads.openFile hr hne (hname rfl)
    obtain ⟨r, storage, hr, hsound⟩ := useStorage_openFile
      (d.note (.opened 1 (Utf8.text d.buffer.toList))) (Utf8.text d.buffer.toList ++ ".PRG")
    rw [hr] at hopened
    unfold openForWriting
    rw [hr]
    cases r with
    | ok file =>
      obtain rfl : sound = true := hnote.sound.symm.trans hsound
      refine Spared.setChannel ?_ (by decide) _
      exact ⟨hopened.device, hopened.holds.of_eq rfl rfl, hopened.sound, rfl⟩
    | error e =>
      obtain rfl : sound = false := hnote.sound.symm.trans hsound
      refine Spared.setChannel ?_ (by decide) _
      exact ⟨hopened.device, hopened.holds.of_eq rfl rfl, hopened.sound, rfl⟩
  · exact h.of_eq rfl rfl rfl rfl

/-! ### The work of a conversation -/

section Work

variable {n : UInt8}

theorem Spared.note (h : Spared d device names rest sound empty) (e : Event) :
    Spared (d.note e) device names rest sound empty := h.of_eq rfl rfl rfl rfl

/-- UNLISTEN, by what it carries out. -/
theorem Spared.unlisten (h : Spared e device names rest sound empty)
    (hwork : (d.note (.command unlisten)).unlisten = e.setArbitration .idle) :
    Spared (d.command unlisten) device names rest sound empty := by
  obtain ⟨journal, hj⟩ := setArbitration_eq e .idle
  rw [command_unlisten, hwork, hj]
  exact h.of_eq rfl rfl rfl rfl

theorem spared_opens (h : Spared d device names rest sound empty) (hne : rest ≠ []) (hdevice : device ≤ 30)
    (hn : n ≠ 0) (hlt : n < 16) (name : List UInt8) (hname : n = 1 → program name ∈ names) :
    Spared ((name.foldl Drive.collect ((d.command (listenTo device)).command (openSecondary n))).command unlisten)
      device names rest sound ((Conversation.opens n name).silences sound empty) := by
  obtain rfl := h.device
  obtain ⟨journal, hnamed⟩ := collect_open_name hdevice hlt name
  have htold : Spared (d.named n (name.take bufferSize) journal) d.device names rest sound empty :=
    h.of_eq rfl rfl rfl rfl
  have htold := htold.note (.command unlisten)
  rw [hnamed]
  by_cases hnothing : name = []
  · subst hnothing
    have hsilences : (Conversation.opens n []).silences sound empty = empty := if_neg (by simp)
    rw [hsilences]
    refine htold.unlisten ?_
    rw [Drive.unlisten, if_neg (by simp [note, named]), if_neg (by simp [note, named]), writeChannel_nothing rfl]
  · have hsilences : (Conversation.opens n name).silences sound empty = if n = 1 then !sound else empty := by
      simp [Conversation.silences, hnothing]
    rw [hsilences]
    refine (htold.openChannel hne rfl hn hname).unlisten (unlisten_opening rfl ?_)
    simpa [note, named, bufferSize] using hnothing

theorem spared_saves (h : Spared d device names rest sound empty) (hne : rest ≠ []) (hdevice : device ≤ 30)
    (hlt : n < 16) (data : List UInt8) :
    Spared ((data.foldl Drive.collect ((d.command (listenTo device)).command (secondary n))).command unlisten)
      device names rest sound empty := by
  obtain rfl := h.device
  obtain ⟨j₁, h₁⟩ := command_listenTo hdevice
  obtain ⟨j₂, h₂⟩ := command_secondary_listening (d := d.command (listenTo d.device)) hlt (by rw [h₁])
  have htold : Spared ((d.command (listenTo d.device)).command (secondary n)) d.device names rest sound empty := by
    rw [h₂, h₁]
    exact h.of_eq rfl rfl rfl rfl
  have hlistening : (data.foldl Drive.collect ((d.command (listenTo d.device)).command (secondary n))).arbitration =
      .listening := by
    rw [collects_arbitration, h₂, h₁]
  exact (((htold.collects hne data).note (.command unlisten)).writeChannel hne).unlisten
    (unlisten_listening hlistening)

theorem spared_closes (h : Spared d device names rest sound empty) (hdevice : device ≤ 30)
    (hn : n ≠ 0) (hlt : n < 16) :
    Spared (((d.command (listenTo device)).command (closeSecondary n)).command unlisten) device names rest sound
      empty := by
  obtain rfl := h.device
  obtain ⟨j₁, h₁⟩ := command_listenTo hdevice
  obtain ⟨j₂, h₂⟩ := command_closeSecondary (d := d.command (listenTo d.device)) hlt
  have htold : Spared ((d.command (listenTo d.device)).command (closeSecondary n)) d.device names rest sound
      empty := by
    rw [h₂, h₁]
    exact h.of_eq rfl rfl rfl rfl
  rw [h₂] at htold ⊢
  exact ((htold.note (.command unlisten)).closeChannel rfl hn).unlisten (unlisten_closing rfl)

/-- A channel other than zero has nothing to send. -/
theorem fetch_nothing (hserved : Served d) (hc : d.channel = some n) (hn : n ≠ 0) (w : Wire) :
    (d.onWire w).fetch = ({ d with empty := true } : Drive Disk).onWire w := by
  have hne : n.toNat ≠ 0 := fun h => hn (UInt8.toNat_inj.1 h)
  unfold Drive.fetch
  rw [onWire_current?]
  rcases hcurrent : d.current? with _ | c
  · rfl
  · have hs : c.ServedOn n.toNat := hserved.current hcurrent hc
    cases c with
    | closed => rfl
    | write file => rfl
    | directory rest => exact absurd hs hne
    | read file remaining => exact absurd hs hne

end Work

/-! ### Runs -/

section Runs

variable {n : UInt8}

/-- A listener is told commands that do not turn its link around. -/
theorem stays_listening (hdevice : d.device ≤ 30) (second : UInt8) (vs : List UInt8)
    (hvs : Stays ((d.command (listenTo d.device)).command second) vs) :
    Stays d (listenTo d.device :: second :: vs) := by
  obtain ⟨journal, hj⟩ := command_listenTo hdevice
  exact ⟨not_turns (by rw [(kind_listenTo hdevice).1]; decide), fun ht => absurd ht.2 (by rw [hj]; simp), hvs⟩

theorem Spared.untalk (h : Spared d device names rest sound empty) (hdevice : device ≤ 30) :
    Spared (d.command untalk) device names rest sound empty := by
  obtain rfl := h.device
  obtain ⟨journal, hj⟩ := command_untalk hdevice
  rw [hj]
  exact h.of_eq rfl rfl rfl rfl

/-- A session on a channel that has nothing to send. The drive finds that out if it is to send anything. -/
theorem yields_nothing (h : Spared d device names rest sound empty) (hserved : Served d)
    (hseen : d.seenAtn = false) (hdevice : device ≤ 30) (hn : n ≠ 0) (hlt : n < 16) (limit : Nat) :
    ∃ answer f, Yields (talk device n limit) d answer f ∧
      Spared f device names rest sound ((Conversation.talks n limit).silences sound empty) ∧ Served f ∧
      f.seenAtn = false := by
  obtain rfl := h.device
  have htalker (journal : Array Event) : Spared (talker d n journal) d.device names rest sound empty :=
    h.of_eq rfl rfl rfl rfl
  have htalkerServed (journal : Array Event) : Served (talker d n journal) := hserved.congr rfl rfl
  obtain ⟨answer, e, f, htalk, ⟨he, heServed⟩, hwork, hs⟩ :
      ∃ answer e f, Yields (talk d.device n limit) d answer f ∧
      (Spared e d.device names rest sound ((Conversation.talks n limit).silences sound empty) ∧ Served e) ∧
      SameWork (e.command untalk) f ∧ f.seenAtn = false := by
    cases limit with
    | zero =>
      refine ⟨([], .full), yields_session hseen hdevice hlt fun journal w ht => ?_⟩
      exact ⟨talker d n journal, w, .pure _ _, ⟨htalker journal, htalkerServed journal⟩, ht.seen⟩
    | succ limit =>
      refine ⟨([], .silent), yields_session hseen hdevice hlt fun journal w ht => ?_⟩
      obtain ⟨w', hnone, hs⟩ := yields_receive_none (e := { talker d n journal with empty := true }) ht
        (fun w => ⟨w.byte, w.last, fetch_nothing (htalkerServed journal) rfl hn w⟩) rfl rfl
      refine ⟨_, w', hnone.bind (.pure _ _), ⟨?_, (htalkerServed journal).congr rfl rfl⟩, hs⟩
      exact ⟨(htalker journal).device, (htalker journal).holds.of_eq rfl rfl, (htalker journal).sound, rfl⟩
  exact ⟨answer, f, htalk, (he.untalk hdevice).of_sameWork hwork, (heServed.command untalk).of_sameWork hwork, hs⟩

/-- A conversation on another channel runs to its end, and leaves alone what channel zero holds. -/
theorem yields_hold (h : Spared d device names rest sound empty) (hne : rest ≠ []) (hserved : Served d)
    (hseen : d.seenAtn = false) (hdevice : device ≤ 30) {c : Conversation} (hc : c.Apart)
    (hnames : c.written ⊆ names) :
    ∃ e, Yields (c.hold device) d () e ∧ Spared e device names rest sound (c.silences sound empty) ∧ Served e ∧
      e.seenAtn = false := by
  obtain rfl := h.device
  cases c with
  | opens n name =>
    obtain ⟨e, hrun, hwork, hs⟩ := yields_openChannel hseen hdevice hc.2 name
    have hname : n = 1 → program name ∈ names := by
      rintro rfl
      exact hnames (by simp [Conversation.written])
    refine ⟨e, hrun.bind (.pure _ _), (spared_opens h hne hdevice hc.1 hc.2 name hname).of_sameWork hwork, ?_, hs⟩
    exact ((Served.collects ((hserved.command _).command _) name).command _).of_sameWork hwork
  | closes n =>
    have hstays : Stays d [listenTo d.device, closeSecondary n, Serial.unlisten] :=
      stays_listening hdevice _ _ ⟨not_turns (by decide), trivial⟩
    obtain ⟨w, hrun, -, hs, -⟩ := yields_command (d := d) (w := d.wire) hseen hstays
    have hwork : SameWork (((d.command (listenTo d.device)).command (closeSecondary n)).command Serial.unlisten)
        (([listenTo d.device, closeSecondary n, Serial.unlisten].foldl Drive.command d).onWire w) :=
      sameWork_onWire _ _
    exact ⟨_, hrun.bind (.pure _ _), (spared_closes h hdevice hc.1 hc.2).of_sameWork hwork,
      (((hserved.command _).command _).command _).of_sameWork hwork, hs⟩
  | saves n data =>
    have hlistens : ((d.command (listenTo d.device)).command (secondary n)).arbitration ≠ .idle := by
      obtain ⟨j₁, h₁⟩ := command_listenTo hdevice
      obtain ⟨j₂, h₂⟩ := command_secondary_listening (d := d.command (listenTo d.device)) hc (by rw [h₁])
      rw [h₂, h₁]
      simp
    obtain ⟨e, hrun, hwork, hs⟩ := yields_tell d.device (secondary n) data hseen
      (stays_listening hdevice _ _ trivial) hlistens
    refine ⟨e, hrun.bind (.pure _ _), (spared_saves h hne hdevice hc data).of_sameWork hwork, ?_, hs⟩
    exact ((Served.collects ((hserved.command _).command _) data).command _).of_sameWork hwork
  | talks n limit =>
    obtain ⟨answer, e, hrun, he, heServed, hs⟩ := yields_nothing h hserved hseen hdevice hc.1 hc.2 limit
    exact ⟨e, hrun.bind (.pure _ _), he, heServed, hs⟩

/-- Whether the drive believes that there is nothing to send after conversations. -/
def silenced (sound : Bool) (cs : List Conversation) (empty : Bool) : Bool :=
  cs.foldl (fun empty c => c.silences sound empty) empty

theorem yields_holdAll (h : Spared d device names rest sound empty) (hne : rest ≠ []) (hserved : Served d)
    (hseen : d.seenAtn = false) (hdevice : device ≤ 30) {cs : List Conversation} (hcs : ∀ c ∈ cs, c.Apart)
    (hnames : ∀ c ∈ cs, c.written ⊆ names) :
    ∃ e, Yields (Conversation.holdAll device cs) d () e ∧
      Spared e device names rest sound (silenced sound cs empty) ∧ e.seenAtn = false := by
  induction cs generalizing d empty with
  | nil => exact ⟨d, .pure _ _, h, hseen⟩
  | cons c cs ih =>
    obtain ⟨e, hrun, he, heServed, hs⟩ :=
      yields_hold h hne hserved hseen hdevice (hcs c List.mem_cons_self) (hnames c List.mem_cons_self)
    obtain ⟨f, hruns, hf⟩ := ih he heServed hs (fun c hc => hcs c (List.mem_cons_of_mem _ hc))
      fun c hc => hnames c (List.mem_cons_of_mem _ hc)
    exact ⟨f, hrun.bind hruns, hf⟩

/-- A drive that believes that there is nothing to send fetches a byte in vain. -/
theorem yields_silenced (h : Spared d device names rest sound true) (hne : rest ≠ []) (hseen : d.seenAtn = false)
    (hdevice : device ≤ 30) {limit : Nat} (hlimit : 1 ≤ limit) :
    ∃ e, Yields (talk device 0 limit) d ([], .silent) e ∧ Holds e names rest.tail := by
  obtain rfl := h.device
  obtain ⟨limit, rfl⟩ := Nat.exists_eq_add_of_le' hlimit
  obtain ⟨v, rest, rfl⟩ := List.exists_cons_of_ne_nil hne
  have hreceives (journal : Array Event) (w : Wire) (ht : Talks (talker d 0 journal) w) : ∃ e w',
      Yields (receiveAll (limit + 1)) ((talker d 0 journal).onWire w) ([], .silent) (e.onWire w') ∧
        (Holds e names rest ∧ e.device = d.device) ∧ w'.seenAtn = false := by
    have htalker : Holds (talker d 0 journal) names (v :: rest) := h.holds.of_eq rfl rfl
    obtain ⟨e, hf, hholds, hdevice', -, ha, he⟩ := htalker.fetch rfl
    obtain ⟨w', hnone, hs⟩ := yields_receive_none (e := e) ht (fun w => ⟨v, rest.isEmpty, hf w⟩)
      (he.trans h.empty) ha
    exact ⟨e, w', hnone.bind (.pure _ _), ⟨hholds, hdevice'⟩, hs⟩
  obtain ⟨e, f, htalk, ⟨hholds, he⟩, hwork, -⟩ :=
    yields_session (P := fun e => Holds e names rest ∧ e.device = d.device) hseen hdevice (by decide) hreceives
  obtain ⟨journal, hj⟩ := command_untalk (d := e) (he ▸ hdevice)
  rw [hj] at hwork
  exact ⟨f, htalk, hholds.of_eq hwork.storage hwork.channels⟩

end Runs

theorem Holds.mono (h : Holds d names rest) {fewer : List String} (hsub : fewer ⊆ names) : Holds d fewer rest :=
  h.imp_right fun ⟨disk, k, hs, hchannel, hr⟩ => ⟨disk, k, hs, hchannel, hr.mono hsub⟩

theorem Spared.offers (h : Spared d device names rest sound false) : Offers d device rest :=
  ⟨h.device, fun he => absurd (h.empty.symm.trans he) (by simp), h.holds.mono (List.nil_subset _)⟩

/-- What channel zero holds is the same after any conversations on other channels, files made and failures to make
them included. The next session sends it on from the next byte, unless one of them has left the drive in the belief
that there is nothing to send. Then nothing is sent, and the next byte is lost. -/
theorem channel_zero_kept (hserved : Served d) (hseen : d.seenAtn = false) (hdevice : d.device ≤ 30)
    {cs : List Conversation} (hcs : ∀ c ∈ cs, c.Apart) (hne : rest ≠ [])
    (hholds : Holds d (cs.flatMap Conversation.written) rest) {limit : Nat} (hlimit : 1 ≤ limit) :
    ∃ e f, Yields (Conversation.holdAll d.device cs) d () e ∧ Holds e [] rest ∧
      if silenced (opensFiles d) cs d.empty then
        Yields (talk d.device 0 limit) e ([], .silent) f ∧ Holds f [] rest.tail
      else
        Yields (talk d.device 0 limit) e (rest.take limit, ending rest limit) f ∧ Holds f [] (rest.drop limit) := by
  have hspared : Spared d d.device (cs.flatMap Conversation.written) rest (opensFiles d) d.empty :=
    ⟨rfl, hholds, rfl, rfl⟩
  obtain ⟨e, hruns, he, hs⟩ := yields_holdAll hspared hne hserved hseen hdevice hcs
    fun c hc name hname => List.mem_flatMap.2 ⟨c, hc, hname⟩
  have hkept : Holds e [] rest := he.holds.mono (List.nil_subset _)
  cases hsilenced : silenced (opensFiles d) cs d.empty with
  | true =>
    rw [hsilenced] at he
    obtain ⟨f, htalk, hf⟩ := yields_silenced he hne hs hdevice hlimit
    exact ⟨e, f, hruns, hkept, htalk, hf.mono (List.nil_subset _)⟩
  | false =>
    rw [hsilenced] at he
    obtain ⟨f, htalk, hf, -⟩ := yields_talk hs he.offers hdevice hlimit
    exact ⟨e, f, hruns, hkept, htalk, hf.2.2⟩

/-- A drive in the middle of a program. -/
def readingDrive : Drive Disk :=
  ({ device := 8, storage := some programDisk, empty := true } : Drive Disk).setChannel 0 (.read ⟨0, 1⟩ 2)

theorem channel_zero_kept_reading :
    ∃ e f, Yields (Conversation.holdAll 8 [.talks 2 1, .opens 1 [0x42], .saves 1 [7]]) readingDrive () e ∧
      Yields (talk 8 0 5) e ([16, 99], .last) f := by
  have hclosed : Served ({ device := 8, storage := some programDisk, empty := true } : Drive Disk) :=
    (Kept.new (σ := Disk) 8).served.congr rfl rfl
  have hserved : Served readingDrive := hclosed.setChannel rfl
  have hholds : Holds readingDrive [program [0x42]] [16, 99] := by
    refine .inr ⟨programDisk, ⟨0, 1⟩, rfl, rfl, by decide, rfl, by decide, by decide +kernel⟩
  have hapart : ∀ c ∈ [Conversation.talks 2 1, .opens 1 [0x42], .saves 1 [7]], c.Apart := by decide
  obtain ⟨e, f, hruns, -, htalk⟩ := channel_zero_kept (d := readingDrive) hserved rfl (by decide) hapart
    (by decide) hholds (show 1 ≤ 5 by decide)
  exact ⟨e, f, hruns, htalk.1⟩

/-- A program is opened and loaded. If another channel is asked to talk in between, there is nothing to load. -/
theorem other_channel_silences :
    let d : Drive Disk := (Drive.new 8).operate [.attach programDisk]
    (∃ e, Yields (do
        let _ ← openChannel 8 0 [0x41]
        talk 8 0 3) d ([1, 16, 99], .last) e) ∧
      ∃ e, Yields (do
        let _ ← openChannel 8 0 [0x41]
        Conversation.holdAll 8 [.talks 2 1]
        talk 8 0 3) d ([], .silent) e := by
  intro d
  obtain ⟨e, hopen, hwork, hseen⟩ := yields_openChannel (d := d) rfl (by decide) (n := 0) (by decide) [0x41]
  have hoffers : Offers e 8 [1, 16, 99] := (offers_open (d := d) (by decide) rfl rfl rfl (by decide) (by decide)
    (by simp) source_programDisk).of_sameWork hwork
  have hserved : Served e := by
    have hd : Served d := (Kept.new (σ := Disk) 8).served.congr rfl rfl
    exact ((Served.collects ((hd.command _).command _) [0x41]).command _).of_sameWork hwork
  have hempty : e.empty = false := by
    cases he : e.empty with
    | false => rfl
    | true => exact absurd (hoffers.2.1 he) (by simp)
  constructor
  · obtain ⟨f, htalk, -⟩ := yields_talk hseen hoffers (by decide) (show 1 ≤ 3 by decide)
    exact ⟨f, hopen.bind htalk⟩
  · have hspared : Spared e 8 [] [1, 16, 99] (opensFiles e) false := ⟨hoffers.1, hoffers.2.2, rfl, hempty⟩
    have hapart : ∀ c ∈ [Conversation.talks 2 1], c.Apart := by decide
    obtain ⟨f, htalks, hf, hs⟩ := yields_holdAll hspared (by simp) hserved hseen (by decide) hapart (by decide)
    obtain ⟨g, hsilent, -⟩ := yields_silenced hf (by simp) hs (by decide) (show 1 ≤ 3 by decide)
    exact ⟨g, hopen.bind (htalks.bind hsilent)⟩

end Vic20.Serial
