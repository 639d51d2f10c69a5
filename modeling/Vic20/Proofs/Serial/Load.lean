import Vic20.Proofs.Serial.Receive
import Vic20.Proofs.Serial.Send
import Vic20.Proofs.Storage.Disk
import Vic20.Proofs.Text.Utf8

/-! Loading over the wire. What channel zero has left to send is taken up byte by byte, and only by bytes that
the computer receives. So a conversation that is broken off goes on in the next one where it was left. -/

namespace Vic20.Serial

open Drive Storage

/-! ### Handing over the clock -/

section Turning

variable {σ : Type} [Storage σ] {d : Drive σ} {w : Wire}

/-- The drive takes the clock over from the computer. -/
theorem yields_turnAround (h : Held w) (hl : w.link = .turnAround) (ha : d.arbitration = .talking) :
    ∃ w', Yields turnAround (d.onWire w) 10 (d.onWire w') ∧ Talks d w' := by
  have hi : d.arbitration ≠ .idle := by rw [ha]; decide
  have hset : ((((d.onWire w).setData true).setAtn false).setClk false) =
      d.onWire { w with atn := false, clk := false, data := true } :=
    congrArg (·.setClk false) (setAtn_addressed d { w with data := true } hi)
  have ht : (d.onWire { w with atn := false, clk := false, data := true }).tick 10 = d.onWire { w with
      atn := false, seenAtn := false, clk := false, data := true, dataOut := false, clkOut := true
      link := .turnAroundReady, elapsed := 0 } := by
    rw [tick_seen (w := { w with atn := false, clk := false, data := true }) (.inl rfl)]
    exact tick_turn (w := { w with atn := false, seenAtn := false, clk := false, data := true })
      ⟨rfl, by simp [hi]⟩ hl rfl
  refine ⟨{ w with
    atn := false, seenAtn := false, clk := false, data := true, dataOut := false, clkOut := true
    link := .turnAroundReady, elapsed := 0 }, ?_, ⟨rfl, rfl, rfl, rfl, rfl, rfl, ha⟩⟩
  refine (yields_lines _ _).bind ((yields_lines _ _).bind ((yields_lines _ _).bind ?_))
  rw [hset]
  refine waitFor_pass h.clkOut ?_
  rw [ht]
  exact waitFor_shown rfl (by decide)

/-- A drive told to talk on a channel. -/
def talker (d : Drive σ) (n : UInt8) (journal : Array Event) : Drive σ :=
  { d with arbitration := .talking, channel := some n, journal }

/-- TALK and the secondary address have a channel talk. -/
theorem command_talker (hdevice : d.device ≤ 30) {n : UInt8} (hn : n < 16) :
    ∃ journal, ¬d.Turns (talkTo d.device) ∧ (d.command (talkTo d.device)).Turns (secondary n) ∧
      ∀ w, ((d.command (talkTo d.device)).command (secondary n)).onWire w = (talker d n journal).onWire w := by
  obtain ⟨j₁, h₁⟩ := command_talkTo hdevice
  have htalking : (d.command (talkTo d.device)).arbitration = .talking := by rw [h₁]
  obtain ⟨j₂, h₂⟩ := command_secondary_talking hn htalking
  rw [h₁] at h₂
  refine ⟨j₂, not_turns (by rw [(kind_talkTo hdevice).1]; decide),
    ⟨(secondary_iff _).1 (kind_secondary hn).1, htalking⟩, ?_⟩
  rw [h₁]
  exact h₂

/-- A session comes down to what is received after the clock has been handed over, and to UNTALK. -/
theorem yields_session (hseen : d.seenAtn = false) (hdevice : d.device ≤ 30) {n : UInt8} (hn : n < 16)
    {limit : Nat} {answer : List UInt8 × Ending} {P : Drive σ → Prop}
    (hreceives : ∀ journal w, Talks (talker d n journal) w → ∃ e w',
      Yields (receiveAll limit) ((talker d n journal).onWire w) answer (e.onWire w') ∧ P e ∧
        w'.seenAtn = false) :
    ∃ e f, Yields (talk d.device n limit) d answer f ∧ P e ∧ SameWork (e.command untalk) f ∧
      f.seenAtn = false := by
  obtain ⟨journal, hstays, hturns, hwork⟩ := command_talker hdevice hn
  obtain ⟨w₁, hattention, h₁, hl₁⟩ := yields_attention (d := d) (w := d.wire) hseen
  obtain ⟨w₂, htalk, h₂, hl₂⟩ := yields_commandByte (d := d) h₁ hl₁ (talkTo d.device)
  obtain ⟨w₃, hsecondary, h₃, hl₃⟩ :=
    yields_commandByte (d := d.command (talkTo d.device)) h₂ (hl₂.trans (if_neg hstays)) (secondary n)
  rw [hwork] at hsecondary
  obtain ⟨w₄, hturn, h₄⟩ :=
    yields_turnAround (d := talker d n journal) h₃ (hl₃.trans (if_pos hturns)) rfl
  obtain ⟨e, w₅, hreceived, hp, hs₅⟩ := hreceives journal w₄ h₄
  have hquiet : Stays e [untalk] := ⟨not_turns (by decide), trivial⟩
  obtain ⟨w₆, huntalk, -, hs₆, -⟩ := yields_command hs₅ hquiet
  exact ⟨e, _, hattention.bind (htalk.bind (hsecondary.bind (hturn.bind (hreceived.bind (huntalk.bind
    (.pure _ _)))))), hp, sameWork_onWire _ _, hs₆⟩

end Turning

variable {d e : Drive Disk} {device v : UInt8} {names : List String} {rest content : List UInt8}

/-- Channel zero has this left to send: a listing, or what can be read on from a file, for which none of the
names stands. -/
def Holds (d : Drive Disk) (names : List String) (rest : List UInt8) : Prop :=
  d.channel? 0 = some (.directory rest) ∨
    ∃ disk h, d.storage = some disk ∧ d.channel? 0 = some (.read h rest.length) ∧ disk.Reads h names rest

/-- Channel zero of the device is about to send this. -/
def Offers (d : Drive Disk) (device : UInt8) (rest : List UInt8) : Prop :=
  d.device = device ∧ (d.empty = true → rest = []) ∧ Holds d [] rest

theorem Holds.of_eq (h : Holds d names rest) (hstorage : e.storage = d.storage)
    (hchannels : e.channels = d.channels) : Holds e names rest := by
  have hchannel : e.channel? 0 = d.channel? 0 := by rw [channel?, hchannels]; rfl
  unfold Holds
  rwa [hstorage, hchannel]

theorem Offers.of_eq (h : Offers d device rest) (hdevice : e.device = d.device) (hempty : e.empty = d.empty)
    (hstorage : e.storage = d.storage) (hchannels : e.channels = d.channels) : Offers e device rest :=
  ⟨hdevice.trans h.1, by rw [hempty]; exact h.2.1, h.2.2.of_eq hstorage hchannels⟩

/-- From a listing the next byte is fetched without the storage. -/
theorem fetch_listing (hc : d.channel = some 0) (hchannel : d.channel? 0 = some (.directory (v :: rest)))
    (w : Wire) :
    (d.onWire w).fetch =
      (d.setChannel 0 (.directory rest)).onWire { w with byte := v, last := rest.isEmpty } := by
  unfold Drive.fetch
  rw [onWire_current?, current?_eq hc, show d.channel? (0 : UInt8).toNat = _ from hchannel]
  exact setCurrent_eq (d := { d.onWire w with byte := v, last := rest.isEmpty }) hc _

/-- From a file the next byte is read, and the handle moves on. -/
theorem fetch_file {disk : Disk} {h : Handle} (hc : d.channel = some 0) (hs : d.storage = some disk)
    (hchannel : d.channel? 0 = some (.read h (rest.length + 1)))
    (hread : Storage.read disk h = (.ok (v, { h with position := h.position + 1 }), disk)) (w : Wire) :
    (d.onWire w).fetch =
      (({ d with storage := some disk } : Drive Disk).setChannel 0
        (.read { h with position := h.position + 1 } rest.length)).onWire
          { w with byte := v, last := rest.isEmpty } := by
  have hlast : (rest.length == 0) = rest.isEmpty := by cases rest <;> rfl
  have huse := useStorage_eq (d := d.onWire w) (Storage.read · h) .reading hs
  rw [hread] at huse
  unfold Drive.fetch
  rw [onWire_current?, current?_eq hc, show d.channel? (0 : UInt8).toNat = _ from hchannel]
  simp only [huse, hlast]
  exact setCurrent_eq (d := { d.onWire w with storage := some disk, byte := v, last := rest.isEmpty }) hc _

/-- One byte less is left once it has been fetched. -/
theorem Holds.fetch (h : Holds d names (v :: rest)) (hc : d.channel = some 0) :
    ∃ e, (∀ w, (d.onWire w).fetch = e.onWire { w with byte := v, last := rest.isEmpty }) ∧
      Holds e names rest ∧ e.device = d.device ∧ e.channel = some 0 ∧ e.arbitration = d.arbitration ∧
      e.empty = d.empty := by
  rcases h with hchannel | ⟨disk, h, hs, hchannel, hreads⟩
  · refine ⟨d.setChannel 0 (.directory rest), fetch_listing hc hchannel, ?_, rfl, hc, rfl, rfl⟩
    exact .inl (channel?_setChannel (by decide) _)
  · obtain ⟨hread, hreads⟩ := hreads.read
    refine ⟨_, fetch_file hc hs hchannel (congrArg (·, disk) hread), ?_, rfl, hc, rfl, rfl⟩
    exact .inr ⟨disk, _, rfl, channel?_setChannel (by decide) _, hreads⟩

theorem Offers.fetch (h : Offers d device (v :: rest)) (hc : d.channel = some 0) :
    ∃ e, (∀ w, (d.onWire w).fetch = e.onWire { w with byte := v, last := rest.isEmpty }) ∧
      Offers e device rest ∧ e.channel = some 0 ∧ e.arbitration = d.arbitration ∧ e.empty = false := by
  obtain ⟨hdevice, he, hholds⟩ := h
  have he : d.empty = false := by
    cases hd : d.empty with
    | false => rfl
    | true => exact absurd (he hd) (by simp)
  obtain ⟨e, hf, hholds, hdevice', hc, ha, he'⟩ := hholds.fetch hc
  have he' := he'.trans he
  exact ⟨e, hf, ⟨hdevice'.trans hdevice, by simp [he'], hholds⟩, hc, ha, he'⟩

theorem Offers.fetch_nil (h : Offers d device []) (hc : d.channel = some 0) (w : Wire) :
    (d.onWire w).fetch = ({ d with empty := true } : Drive Disk).onWire w := by
  have hcurrent := current?_eq hc
  unfold Drive.fetch
  rcases h.2.2 with hchannel | ⟨_, h, -, hchannel, -⟩
  · rw [onWire_current?, hcurrent, show d.channel? (0 : UInt8).toNat = _ from hchannel]
    rfl
  · rw [onWire_current?, hcurrent, show d.channel? (0 : UInt8).toNat = _ from hchannel]
    rfl

/-! ### Sessions -/

/-- How a session ends that may receive so many bytes, one at least, when this is left. -/
def ending (content : List UInt8) (limit : Nat) : Ending :=
  if content = [] then .silent else if content.length ≤ limit then .last else .full

/-- What sessions receive one after another, each up to a limit. -/
def sessions (content : List UInt8) : List Nat → List (List UInt8 × Ending)
  | [] => []
  | limit :: limits => (content.take limit, ending content limit) :: sessions (content.drop limit) limits

theorem ending_cons {limit : Nat} (hne : rest ≠ []) : ending (v :: rest) (limit + 1) = ending rest limit := by
  simp [ending, hne]

/-- All sessions together receive the content from its beginning, without gaps or repetitions. -/
theorem flatten_sessions (content : List UInt8) (limits : List Nat) :
    ((sessions content limits).map Prod.fst).flatten = content.take limits.sum := by
  induction limits generalizing content with
  | nil => rfl
  | cons limit limits ih =>
    rw [sessions, List.map_cons, List.flatten_cons, ih, List.sum_cons, List.take_add]

/-- The drive offers its content to a computer that listens. -/
structure Serves (d : Drive Disk) (device : UInt8) (rest : List UInt8) : Prop where
  offers : Offers d device rest
  channel : d.channel = some 0
  talking : d.arbitration = .talking

theorem yields_receiveAll {w : Wire} (ht : Talks d w) (h : Serves d device rest) (limit : Nat)
    (hlimit : limit = 0 → rest ≠ []) :
    ∃ e w', Yields (receiveAll limit) (d.onWire w) (rest.take limit, ending rest limit) (e.onWire w') ∧
      Serves e device (rest.drop limit) ∧ w'.seenAtn = false := by
  induction limit generalizing d w rest with
  | zero =>
    have hend : ending rest 0 = .full := by simp [ending, hlimit rfl]
    rw [hend]
    exact ⟨d, w, .pure _ _, h, ht.seen⟩
  | succ limit ih =>
    cases rest with
    | nil =>
      obtain ⟨w', hnone, hseen⟩ := yields_receive_none (e := { d with empty := true }) ht
        (fun w => ⟨w.byte, w.last, h.offers.fetch_nil h.channel w⟩) rfl h.talking
      have hoffers : Offers { d with empty := true } device [] :=
        ⟨h.offers.1, fun _ => rfl, h.offers.2.2⟩
      exact ⟨_, w', hnone.bind (.pure _ _), ⟨hoffers, h.channel, h.talking⟩, hseen⟩
    | cons v rest =>
      obtain ⟨e, hf, hoffers, hc, ha, he⟩ := h.offers.fetch h.channel
      have ha := ha.trans h.talking
      obtain ⟨w₁, hreceive, hseen, hnext⟩ := yields_receive ht hf he ha
      cases rest with
      | nil =>
        have hend : ending [v] (limit + 1) = .last := by simp [ending]
        rw [hend, List.take_succ_cons, List.take_nil]
        exact ⟨e, w₁, hreceive.bind (.pure _ _), ⟨by simpa using hoffers, hc, ha⟩, hseen⟩
      | cons u rest =>
        obtain ⟨f, w₂, hall, hf, hseen⟩ := ih (hnext rfl) ⟨hoffers, hc, ha⟩ (by simp)
        rw [ending_cons (by simp)]
        exact ⟨f, w₂, hreceive.bind (hall.bind (.pure _ _)), hf, hseen⟩

theorem Serves.untalk (h : Serves d device rest) (hdevice : device ≤ 30) :
    Offers (d.command untalk) device rest := by
  obtain ⟨rfl, -⟩ := id h.offers
  obtain ⟨journal, hj⟩ := command_untalk hdevice
  rw [hj]
  exact h.offers.of_eq rfl rfl rfl rfl

theorem yields_talk (hseen : d.seenAtn = false) (h : Offers d device rest) (hdevice : device ≤ 30)
    {limit : Nat} (hlimit : 1 ≤ limit) :
    ∃ e, Yields (talk device 0 limit) d (rest.take limit, ending rest limit) e ∧
      Offers e device (rest.drop limit) ∧ e.seenAtn = false := by
  obtain ⟨rfl, -⟩ := id h
  obtain ⟨e, f, htalk, he, hwork, hs⟩ := yields_session hseen hdevice (n := 0) (by decide)
    (P := fun e => Serves e d.device (rest.drop limit))
    fun journal w ht =>
      yields_receiveAll ht ⟨h.of_eq (e := talker d 0 journal) rfl rfl rfl rfl, rfl, rfl⟩ limit (by omega)
  exact ⟨f, htalk, (he.untalk hdevice).of_eq hwork.device hwork.empty hwork.storage hwork.channels, hs⟩

theorem yields_talks (hseen : d.seenAtn = false) (h : Offers d device content) (hdevice : device ≤ 30)
    (limits : List Nat) (hlimits : ∀ limit ∈ limits, 1 ≤ limit) :
    ∃ e, Yields (limits.mapM (talk device 0)) d (sessions content limits) e := by
  induction limits generalizing d content with
  | nil => exact ⟨d, .pure _ _⟩
  | cons limit limits ih =>
    obtain ⟨e, htalk, he, hseen'⟩ := yields_talk hseen h hdevice (hlimits limit (by simp))
    obtain ⟨f, htalks⟩ := ih hseen' he fun l hl => hlimits l (by simp [hl])
    exact ⟨f, htalk.cons htalks⟩

/-! ### Opening -/

/-- What a name stands for, if anything: the listing of the directory, or a program. -/
def source (disk : Disk) (long : Bool) (name : List UInt8) : Option (List UInt8) :=
  if name.head? = some 0x24 then
    disk.entries.toOption.map (Listing.build disk.directory · long)
  else (disk.find? (Utf8.text name ++ ".PRG")).map fun file => (disk.content file).toList

theorem startsWith_iff {name : List UInt8} (hascii : ∀ v ∈ name, v < 0x80) (hne : name ≠ []) :
    (Utf8.text name).startsWith "$" = true ↔ name.head? = some 0x24 := by
  obtain ⟨v, name, rfl⟩ := List.exists_cons_of_ne_nil hne
  rw [Utf8.startsWith_dollar (hascii v (by simp)), List.head?_cons, Option.some.injEq]

theorem openListing_eq {disk : Disk} {entries : List Entry} (hs : d.storage = some disk)
    (hentries : disk.entries = .ok entries) :
    d.openListing = (.ok (.directory (Listing.build disk.directory entries d.longDirectory)),
      { d with storage := some disk }) := by
  have hlist : d.useStorage Storage.entries .listing = (.ok entries, { d with storage := some disk }) := by
    rw [useStorage_eq Storage.entries .listing hs,
      show Storage.entries disk = _ from congrArg (·, disk) hentries]
    rfl
  unfold openListing
  rw [hlist]
  rfl

theorem openForReading_eq {disk : Disk} {name : String} {file : Nat} (hs : d.storage = some disk)
    (hok : disk.failing = []) (hfind : disk.find? name = some file) :
    d.openForReading name =
      (.ok (.read ⟨file, 0⟩ (disk.content file).size), { d with storage := some disk }) := by
  have hopen : d.useStorage (Storage.openFile · name .read) (.opening name) =
      (.ok ⟨file, 0⟩, { d with storage := some disk }) := by
    rw [useStorage_eq _ _ hs, show Storage.openFile disk name .read = _ from Disk.openFile_read hok hfind]
    rfl
  have hsize : ({ d with storage := some disk } : Drive Disk).useStorage (Storage.size · ⟨file, 0⟩)
      (.opening name) = (.ok (disk.content file).size, { d with storage := some disk }) := by
    rw [useStorage_eq (s := disk) _ _ rfl, Disk.size_eq hok]
    rfl
  unfold openForReading
  rw [hopen]
  simp only [hsize]

theorem offers_openChannel {disk : Disk} (hc : d.channel = some 0) (hs : d.storage = some disk)
    (hok : disk.failing = []) (hlimit : disk.readLimit = none)
    (hascii : ∀ v ∈ d.buffer.toList, v < 0x80) (hne : d.buffer.toList ≠ [])
    (hsource : source disk d.longDirectory d.buffer.toList = some content) :
    Offers d.openChannel d.device content := by
  have hdollar := startsWith_iff hascii hne
  unfold source at hsource
  unfold Drive.openChannel
  rw [hc]
  by_cases hname : d.buffer.toList.head? = some 0x24
  · rw [if_pos hname] at hsource
    obtain ⟨entries, hentries, rfl⟩ := Option.map_eq_some_iff.1 hsource
    have hentries : disk.entries = .ok entries := by
      cases h : disk.entries <;> simp_all [Except.toOption]
    simp only [hdollar, hname, and_self, if_true]
    rw [openListing_eq (d := d.note (.opened 0 (Utf8.text d.buffer.toList))) hs hentries]
    exact ⟨rfl, by simp [install, setChannel], .inl (channel?_setChannel (by decide) _)⟩
  · rw [if_neg hname] at hsource
    obtain ⟨file, hfind, rfl⟩ := Option.map_eq_some_iff.1 hsource
    simp only [hdollar, hname, and_false, if_false, if_true]
    rw [openForReading_eq (d := d.note (.opened 0 (Utf8.text d.buffer.toList))) hs hok hfind]
    have hreads : disk.Reads ⟨file, 0⟩ [] (disk.content file).toList :=
      ⟨Disk.fails_of_failing hok _, hlimit, List.prefix_rfl, by simp⟩
    refine ⟨rfl, fun hempty => ?_, .inr ⟨disk, ⟨file, 0⟩, rfl, channel?_setChannel (by decide) _, hreads⟩⟩
    cases hsize : (disk.content file).size with
    | zero => simpa using hsize
    | succ n =>
      rw [hsize] at hempty
      exact absurd hempty (by simp [install, setChannel])

theorem offers_open {disk : Disk} (hdevice : d.device ≤ 30) (hs : d.storage = some disk)
    (hok : disk.failing = []) (hlimit : disk.readLimit = none) {name : List UInt8} (hne : name ≠ [])
    (hlen : name.length ≤ 256) (hascii : ∀ v ∈ name, v < 0x80)
    (hsource : source disk d.longDirectory name = some content) :
    Offers ((name.foldl Drive.collect ((d.command (listenTo d.device)).command (openSecondary 0))).command
      unlisten) d.device content := by
  obtain ⟨before, after, h⟩ := command_open_name hdevice (n := 0) (by decide) hne
  rw [h, List.take_of_length_le (show name.length ≤ bufferSize from hlen)]
  exact (offers_openChannel (d := d.named 0 name before) rfl hs hok hlimit hascii hne hsource).of_eq rfl rfl
    rfl rfl

theorem Offers.of_sameWork (h : Offers d device content) (hw : SameWork d e) : Offers e device content :=
  h.of_eq hw.device hw.empty hw.storage hw.channels

/-- Loading over the wire is exact, and goes on where it was left. Sessions of any lengths receive the
content of what was opened from its beginning, without gaps or repetitions. The last byte is marked as such
and no other is, and there is nothing after it. -/
theorem loaded_over_wire (d : Drive Disk) (disk : Disk) (hseen : d.seenAtn = false) (hdevice : d.device ≤ 30)
    (hs : d.storage = some disk) (hok : disk.failing = []) (hreads : disk.readLimit = none)
    (name : List UInt8) (hne : name ≠ []) (hlen : name.length ≤ 256) (hascii : ∀ v ∈ name, v < 0x80)
    (content : List UInt8) (hsource : source disk d.longDirectory name = some content) (limits : List Nat)
    (hlimits : ∀ limit ∈ limits, 1 ≤ limit) :
    (∃ e, Yields (do return (← openChannel d.device 0 name, ← limits.mapM (talk d.device 0))) d
      (taken name, sessions content limits) e) ∧
    ((sessions content limits).map Prod.fst).flatten = content.take limits.sum := by
  obtain ⟨e, hopen, hwork, hseen'⟩ := yields_openChannel hseen hdevice (n := 0) (by decide) name
  have hoffers := (offers_open hdevice hs hok hreads hne hlen hascii hsource).of_sameWork hwork
  obtain ⟨f, htalks⟩ := yields_talks hseen' hoffers hdevice limits hlimits
  exact ⟨⟨f, hopen.bind (htalks.bind (.pure _ _))⟩, flatten_sessions content limits⟩

/-- A disk with one program. -/
def programDisk : Disk := { files := #[⟨"a.prg", #[1, 16, 99]⟩] }

theorem source_programDisk : source programDisk false [0x41] = some [1, 16, 99] := by
  have htext : Utf8.text [0x41] = "A" := by simp [Utf8.text, Utf8.decode, Utf8.lead?, Utf8.follow]
  rw [source, if_neg (by decide), htext]
  decide +kernel

theorem loaded_over_wire_program :
    programDisk.failing = [] ∧ programDisk.readLimit = none ∧
      source programDisk false [0x41] = some [1, 16, 99] ∧
      ∃ e, Yields (do return (← openChannel 8 0 [0x41], ← [2, 5, 1].mapM (talk 8 0)))
        { device := 8, storage := some programDisk, link := .sendDataValid, arbitration := .listening }
        (taken [0x41], [([1, 16], .full), ([99], .last), ([], .silent)]) e := by
  have h := loaded_over_wire
    { device := 8, storage := some programDisk, link := .sendDataValid, arbitration := .listening } programDisk
    rfl (by decide) rfl rfl rfl [0x41] (by decide) (by decide) (by simp) [1, 16, 99] source_programDisk
    [2, 5, 1] (by decide)
  exact ⟨rfl, rfl, source_programDisk, h.1⟩

end Vic20.Serial
