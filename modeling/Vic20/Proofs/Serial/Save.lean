import Vic20.Proofs.Serial.Send
import Vic20.Proofs.Storage.Disk

/-! Saving over the wire. While a burst is under way the file and the buffer together hold every byte that
has been received. A full buffer goes to the file when the next byte comes, and what is left goes there at
UNLISTEN, so that between bursts the file alone holds them all. -/

namespace Vic20.Serial

open Drive Storage

variable {d e : Drive Disk} {device : UInt8} {name : String} {content saved : List UInt8}

/-- Channel one of the device writes to the end of the named file, and this is the file's content. -/
def Saves (d : Drive Disk) (device : UInt8) (name : String) (content : List UInt8) : Prop :=
  d.device = device ∧ ∃ disk file, d.storage = some disk ∧ disk.failing = [] ∧
    disk.find? name = some file ∧ (disk.content file).toList = content ∧
    d.channel? 1 = some (.write ⟨file, 0⟩)

/-- A burst to channel one is under way. -/
structure Bursting (d : Drive Disk) (device : UInt8) (name : String) (saved : List UInt8) : Prop where
  listening : d.arbitration = .listening
  channel : d.channel = some 1
  size_le : d.buffer.size ≤ bufferSize
  saves : ∃ content, Saves d device name content ∧ content ++ d.buffer.toList = saved

theorem Saves.of_eq (h : Saves d device name content) (hdevice : e.device = d.device)
    (hstorage : e.storage = d.storage) (hchannels : e.channels = d.channels) :
    Saves e device name content := by
  obtain ⟨hd, disk, file, hs, hok, hfind, hcontent, hchannel⟩ := h
  exact ⟨hdevice.trans hd, disk, file, hstorage.trans hs, hok, hfind, hcontent,
    by rw [channel?, hchannels]; exact hchannel⟩

/-- Nothing is written out of an empty buffer. -/
theorem writeChannel_nothing (hb : d.buffer = #[]) : d.writeChannel = d := by
  unfold writeChannel
  split
  · exact if_pos (by simp [hb])
  · rfl

theorem writeChannel_file {disk : Disk} {h : Handle} (hc : d.channel = some 1) (hs : d.storage = some disk)
    (hok : disk.failing = []) (hchannel : d.channel? 1 = some (.write h)) (hb : d.buffer ≠ #[]) :
    d.writeChannel =
      ({ d with storage := some (disk.change h.file (· ++ d.buffer.toList)) } : Drive Disk).setChannel 1
        (.write h) := by
  have hcurrent : d.current? = some (.write h) := (current?_eq hc).trans hchannel
  have hwrite : Storage.write disk h d.buffer.toList = (.ok h, disk.change h.file (· ++ d.buffer.toList)) :=
    Disk.write_eq hok _ _
  have huse := useStorage_eq (Storage.write · h d.buffer.toList) .writing hs
  rw [hwrite] at huse
  unfold writeChannel
  rw [hcurrent]
  refine (if_neg (by simpa using hb)).trans ?_
  rw [huse]
  exact setCurrent_eq (d := { d with storage := some (disk.change h.file (· ++ d.buffer.toList)) }) hc _

/-- The buffer goes to the end of the file. -/
theorem saves_writeChannel (h : Saves d device name content) (hc : d.channel = some 1) :
    Saves d.writeChannel device name (content ++ d.buffer.toList) ∧ d.writeChannel.channel = some 1 := by
  by_cases hb : d.buffer = #[]
  · rw [writeChannel_nothing hb, hb, List.append_nil]
    exact ⟨h, hc⟩
  obtain ⟨hdevice, disk, file, hs, hok, hfind, hcontent, hchannel⟩ := h
  rw [writeChannel_file hc hs hok hchannel hb]
  refine ⟨⟨hdevice, _, file, rfl, hok, ?_, ?_, ?_⟩, hc⟩
  · rw [Disk.find?_change, hfind]
  · rw [Disk.content_change (Disk.lt_of_find? hfind)]
    simp [hcontent]
  · exact channel?_setChannel (by decide) _

/-! ### Bursts -/

theorem Bursting.collect (h : Bursting d device name saved) (v : UInt8) :
    Bursting (d.collect v) device name (saved ++ [v]) := by
  obtain ⟨content, hsaves, hsaved⟩ := h.saves
  by_cases hb : d.buffer.size < bufferSize
  · rw [collect_push (.inr h.listening) hb]
    refine ⟨h.listening, h.channel, ?_, content, hsaves.of_eq rfl rfl rfl, ?_⟩
    · rw [Array.size_push]
      exact hb
    · rw [Array.toList_push, ← List.append_assoc, hsaved]
  · obtain ⟨hwritten, hc⟩ := saves_writeChannel hsaves h.channel
    obtain ⟨-, disk, file, -, -, -, -, hchannel⟩ := hsaves
    rw [collect_full h.listening (Nat.le_antisymm h.size_le (Nat.not_lt.1 hb))
      ((current?_eq h.channel).trans hchannel)]
    refine ⟨(writeChannel_arbitration d).trans h.listening, hc, (by decide : 1 ≤ bufferSize), _,
      hwritten.of_eq rfl rfl rfl, ?_⟩
    rw [hsaved]

theorem Bursting.collects (h : Bursting d device name saved) (bytes : List UInt8) :
    Bursting (bytes.foldl Drive.collect d) device name (saved ++ bytes) := by
  induction bytes generalizing d saved with
  | nil => simpa using h
  | cons v bytes ih => simpa using ih (h.collect v)

/-- UNLISTEN leaves every byte in the file. -/
theorem Bursting.ends (h : Bursting d device name saved) : Saves (d.command unlisten) device name saved := by
  obtain ⟨content, hsaves, hsaved⟩ := h.saves
  have hnote : Saves (d.note (.command unlisten)) device name content := hsaves.of_eq rfl rfl rfl
  obtain ⟨hwritten, -⟩ := saves_writeChannel hnote h.channel
  have hwork := unlisten_listening (d := d.note (.command unlisten)) h.listening
  obtain ⟨journal, hj⟩ := setArbitration_eq (d.note (.command unlisten)).writeChannel .idle
  rw [command_unlisten, hwork, hj, ← hsaved]
  exact hwritten.of_eq rfl rfl rfl

/-- LISTEN and the secondary address begin a burst. -/
theorem Saves.listen (h : Saves d device name saved) (hdevice : device ≤ 30) :
    Bursting ((d.command (listenTo device)).command (secondary 1)) device name saved := by
  obtain ⟨rfl, -⟩ := id h
  obtain ⟨j₁, h₁⟩ := command_listenTo hdevice
  obtain ⟨j₂, h₂⟩ := command_secondary_listening (n := 1) (d := d.command (listenTo d.device)) (by decide)
    (by rw [h₁])
  rw [h₂, h₁]
  exact ⟨rfl, rfl, Nat.zero_le _, saved, h.of_eq rfl rfl rfl, by simp⟩

/-! ### Opening -/

theorem saves_openChannel {disk : Disk} (hc : d.channel = some 1) (hs : d.storage = some disk)
    (hok : disk.failing = []) :
    Saves d.openChannel d.device (Utf8.text d.buffer.toList ++ ".PRG") [] := by
  obtain ⟨file, disk', hopen, hok', hfind, hempty⟩ :=
    Disk.openFile_write hok (Utf8.text d.buffer.toList ++ ".PRG")
  have hfile := useStorage_eq (d := d.note (.opened 1 (Utf8.text d.buffer.toList)))
    (Storage.openFile · (Utf8.text d.buffer.toList ++ ".PRG") .write)
    (.opening (Utf8.text d.buffer.toList ++ ".PRG")) hs
  rw [show Storage.openFile disk (Utf8.text d.buffer.toList ++ ".PRG") .write = _ from hopen] at hfile
  have hd : d.openChannel = ({ d.note (.opened 1 (Utf8.text d.buffer.toList)) with
      storage := some disk', empty := false } : Drive Disk).setChannel 1 (.write ⟨file, 0⟩) := by
    unfold Drive.openChannel
    rw [hc]
    refine (if_neg (by simp)).trans ((if_neg (by decide)).trans ((if_pos rfl).trans ?_))
    unfold openForWriting
    rw [hfile]
    rfl
  rw [hd]
  exact ⟨rfl, disk', file, rfl, hok', hfind, by simp [hempty], channel?_setChannel (by decide) _⟩

theorem saves_open {disk : Disk} (hdevice : d.device ≤ 30) (hs : d.storage = some disk)
    (hok : disk.failing = []) {bytes : List UInt8} (hne : bytes ≠ []) (hlen : bytes.length ≤ 256) :
    Saves ((bytes.foldl Drive.collect ((d.command (listenTo d.device)).command (openSecondary 1))).command
      unlisten) d.device (Utf8.text bytes ++ ".PRG") [] := by
  obtain ⟨before, after, h⟩ := command_open_name hdevice (n := 1) (by decide) hne
  rw [h, List.take_of_length_le (show bytes.length ≤ bufferSize from hlen)]
  exact (saves_openChannel (d := d.named 1 bytes before) rfl hs hok).of_eq rfl rfl rfl

/-! ### The conversation -/

theorem Saves.of_sameWork (h : Saves d device name content) (hw : SameWork d e) :
    Saves e device name content :=
  h.of_eq hw.device hw.storage hw.channels

theorem yields_open {disk : Disk} (hseen : d.seenAtn = false) (hdevice : d.device ≤ 30)
    (hs : d.storage = some disk) (hok : disk.failing = []) {bytes : List UInt8} (hne : bytes ≠ [])
    (hlen : bytes.length ≤ 256) :
    ∃ e, Yields (openChannel d.device 1 bytes) d (taken bytes) e ∧ e.seenAtn = false ∧
      Saves e d.device (Utf8.text bytes ++ ".PRG") [] := by
  obtain ⟨e, hrun, hwork, hseen'⟩ := yields_openChannel hseen hdevice (n := 1) (by decide) bytes
  exact ⟨e, hrun, hseen', (saves_open hdevice hs hok hne hlen).of_sameWork hwork⟩

theorem yields_save (hseen : d.seenAtn = false) (hdevice : device ≤ 30) (h : Saves d device name saved)
    (payload : List UInt8) :
    ∃ e, Yields (save device 1 payload) d (taken payload) e ∧ e.seenAtn = false ∧
      Saves e device name (saved ++ payload) := by
  have hlistens := (h.listen hdevice).listening
  have hb : Stays d [listenTo device, secondary 1] := by
    obtain ⟨rfl, -⟩ := h
    obtain ⟨journal, hj⟩ := command_listenTo hdevice
    exact ⟨not_turns (by rw [(kind_listenTo hdevice).1]; decide), fun ht => absurd ht.2 (by rw [hj]; simp),
      trivial⟩
  obtain ⟨e, hrun, hwork, hseen'⟩ :=
    yields_tell device (secondary 1) payload hseen hb (by rw [hlistens]; decide)
  exact ⟨e, hrun, hseen', (((h.listen hdevice).collects payload).ends).of_sameWork hwork⟩

theorem yields_saves (hseen : d.seenAtn = false) (hdevice : device ≤ 30) (h : Saves d device name saved)
    (payloads : List (List UInt8)) :
    ∃ e, Yields (payloads.mapM (save device 1)) d (payloads.map taken) e ∧
      Saves e device name (saved ++ payloads.flatten) := by
  induction payloads generalizing d saved with
  | nil => exact ⟨d, .pure _ _, by simpa using h⟩
  | cons payload payloads ih =>
    obtain ⟨e, hrun, hseen', h'⟩ := yields_save hseen hdevice h payload
    obtain ⟨f, hruns, hf⟩ := ih hseen' h'
    exact ⟨f, hrun.cons hruns, by simpa using hf⟩

/-- Saving over the wire stores exactly what was sent, however long the bursts are: every byte is
acknowledged, and the file that was opened holds the payloads one after another. -/
theorem saved_over_wire (d : Drive Disk) (disk : Disk) (hseen : d.seenAtn = false)
    (hdevice : d.device ≤ 30) (hs : d.storage = some disk) (hok : disk.failing = []) (name : List UInt8)
    (hne : name ≠ []) (hlen : name.length ≤ 256) (payloads : List (List UInt8)) :
    ∃ e disk' file,
      Yields (do return (← openChannel d.device 1 name, ← payloads.mapM (save d.device 1))) d
        (taken name, payloads.map taken) e ∧
      e.storage = some disk' ∧ disk'.find? (Utf8.text name ++ ".PRG") = some file ∧
      e.channel? 1 = some (.write ⟨file, 0⟩) ∧ (disk'.content file).toList = payloads.flatten := by
  obtain ⟨e, hopen, hseen', h⟩ := yields_open hseen hdevice hs hok hne hlen
  obtain ⟨f, hsaves, -, disk', file, hs', -, hfind, hcontent, hchannel⟩ :=
    yields_saves hseen' hdevice h payloads
  exact ⟨f, disk', file, hopen.bind (hsaves.bind (.pure _ _)), hs', hfind, hchannel, hcontent⟩

theorem saved_over_wire_empty_disk :
    ∃ e disk' file,
      Yields (do return (← openChannel 9 1 [0x41], ← [[1, 2], [], [3]].mapM (save 9 1)))
        ({ device := 9, storage := some {}, link := .waitDataValid, arbitration := .talking } : Drive Disk)
        (taken [0x41], [taken [1, 2], taken [], taken [3]]) e ∧
      e.storage = some disk' ∧ disk'.find? (Utf8.text [0x41] ++ ".PRG") = some file ∧
      e.channel? 1 = some (.write ⟨file, 0⟩) ∧ (disk'.content file).toList = [1, 2, 3] :=
  saved_over_wire { device := 9, storage := some {}, link := .waitDataValid, arbitration := .talking } {} rfl
    (by decide) rfl rfl [0x41] (by decide) (by decide) [[1, 2], [], [3]]

end Vic20.Serial
