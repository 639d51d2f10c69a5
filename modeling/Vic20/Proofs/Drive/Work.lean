import Vic20.Proofs.Drive.Wire
import Vic20.Serial.Computer

/-! The commands of a conversation, each by what it changes of the drive's work. The journal grows by all of
them, by how much is left open. -/

namespace Vic20.Drive

open Serial

variable {σ : Type} {d : Drive σ}

theorem setArbitration_eq (d : Drive σ) (a : Arbitration) :
    ∃ journal, d.setArbitration a = { d with arbitration := a, journal } := by
  unfold setArbitration
  split_ifs
  · exact ⟨d.journal, rfl⟩
  · exact ⟨_, rfl⟩

theorem useStorage_eq {α : Type} (f : σ → Except Storage.Fault α × σ) (wrap : Storage.Fault → StorageError)
    {s : σ} (hs : d.storage = some s) :
    d.useStorage f wrap = ((f s).1.mapError wrap, { d with storage := some (f s).2 }) := by
  simp only [useStorage, hs]

theorem useStorage_arbitration {α : Type} (d : Drive σ) (f : σ → Except Storage.Fault α × σ)
    (wrap : Storage.Fault → StorageError) : (d.useStorage f wrap).2.arbitration = d.arbitration := by
  unfold useStorage
  cases d.storage <;> rfl

theorem current?_eq {n : UInt8} (h : d.channel = some n) : d.current? = d.channel? n.toNat := by
  rw [current?, h]
  rfl

theorem channel?_setChannel {n : UInt8} (h : n.toNat < channelCount) (c : Channel) :
    (d.setChannel n c).channel? n.toNat = some c := by
  simp [channel?, setChannel, h]

theorem channel?_setChannel_of_ne {n : UInt8} {k : Nat} (h : n.toNat ≠ k) (c : Channel) :
    (d.setChannel n c).channel? k = d.channel? k := by
  simp [channel?, setChannel, h]

theorem setCurrent_eq {n : UInt8} (h : d.channel = some n) (c : Channel) :
    d.setCurrent c = d.setChannel n c := by
  rw [setCurrent, h]

theorem setCurrent_arbitration (d : Drive σ) (c : Channel) :
    (d.setCurrent c).arbitration = d.arbitration := by
  unfold setCurrent
  cases d.channel <;> rfl

variable [Storage σ]

theorem writeChannel_arbitration (d : Drive σ) : d.writeChannel.arbitration = d.arbitration := by
  unfold writeChannel
  rcases d.current? with _ | c
  · rfl
  · cases c with
    | write file =>
      by_cases hb : d.buffer.isEmpty = true
      · exact congrArg arbitration (if_pos hb)
      · have h := useStorage_arbitration d (Storage.write · file d.buffer.toList) .writing
        refine (congrArg arbitration (if_neg hb)).trans ?_
        rcases hr : d.useStorage (Storage.write · file d.buffer.toList) .writing with ⟨_ | file', e⟩ <;>
          rw [hr] at h
        · exact h
        · exact (setCurrent_arbitration e (.write file')).trans h
    | _ => rfl

omit [Storage σ] in
theorem keep_arbitration (d : Drive σ) (v : UInt8) : (d.keep v).arbitration = d.arbitration := by
  unfold keep
  split_ifs <;> rfl

/-- Bytes do not change what the drive is addressed for. -/
theorem collect_arbitration (d : Drive σ) (v : UInt8) : (d.collect v).arbitration = d.arbitration := by
  rw [collect_eq]
  split_ifs
  · exact (keep_arbitration _ v).trans (writeChannel_arbitration d)
  · exact keep_arbitration d v
  · rfl

theorem collects_arbitration (d : Drive σ) (bytes : List UInt8) :
    (bytes.foldl collect d).arbitration = d.arbitration := by
  induction bytes generalizing d with
  | nil => rfl
  | cons v bytes ih => exact (ih (d.collect v)).trans (collect_arbitration d v)

/-! ### Addresses -/

omit [Storage σ] in
theorem not_turns {v : UInt8} (h : (v &&& 0xE0).toNat ≠ 0x60) : ¬d.Turns v :=
  fun ht => h ((secondary_iff v).2 ht.1)

section Addresses

variable {n : UInt8}

theorem kind_listenTo (h : n ≤ 30) :
    (listenTo n &&& 0xE0).toNat = 0x20 ∧ listenTo n &&& 0x1F = n ∧ n ≠ unaddress := by
  obtain ⟨n⟩ := n
  revert n
  decide +kernel

theorem kind_talkTo (h : n ≤ 30) : (talkTo n &&& 0xE0).toNat = 0x40 ∧ talkTo n &&& 0x1F = n := by
  obtain ⟨n⟩ := n
  revert n
  decide +kernel

theorem kind_secondary (h : n < 16) :
    (secondary n &&& 0xE0).toNat = 0x60 ∧ secondary n &&& 0x1F = n := by
  obtain ⟨n⟩ := n
  revert n
  decide +kernel

theorem kind_openSecondary (h : n < 16) :
    (openSecondary n &&& 0xE0).toNat = 0xE0 ∧ openSecondary n &&& 0x1F &&& 0x0F = n ∧
      (openSecondary n &&& 0x1F &&& 0x10 != 0) = true := by
  obtain ⟨n⟩ := n
  revert n
  decide +kernel

theorem kind_closeSecondary (h : n < 16) :
    (closeSecondary n &&& 0xE0).toNat = 0xE0 ∧ closeSecondary n &&& 0x1F &&& 0x0F = n ∧
      (closeSecondary n &&& 0x1F &&& 0x10 != 0) = false := by
  obtain ⟨n⟩ := n
  revert n
  decide +kernel

end Addresses

/-- LISTEN to this drive. -/
theorem command_listenTo (h : d.device ≤ 30) :
    ∃ journal, d.command (listenTo d.device) =
      { d with arbitration := .listening, channel := none, buffer := #[], journal } := by
  obtain ⟨hkind, haddress, hdevice⟩ := kind_listenTo h
  obtain ⟨journal, hj⟩ := setArbitration_eq (d.note (.command (listenTo d.device))) .listening
  refine ⟨journal, ?_⟩
  rw [command_listen hkind, haddress, if_neg hdevice, if_pos rfl, hj]
  rfl

/-- TALK to this drive. -/
theorem command_talkTo (h : d.device ≤ 30) :
    ∃ journal, d.command (talkTo d.device) =
      { d with arbitration := .talking, channel := none, journal } := by
  obtain ⟨hkind, haddress⟩ := kind_talkTo h
  obtain ⟨journal, hj⟩ :=
    setArbitration_eq { d.note (.command (talkTo d.device)) with channel := none } .talking
  refine ⟨journal, ?_⟩
  rw [command_talk hkind, haddress, if_pos rfl, hj]
  rfl

theorem command_secondary_listening {n : UInt8} (h : n < 16) (ha : d.arbitration = .listening) :
    ∃ journal, d.command (secondary n) = { d with channel := some n, journal } := by
  obtain ⟨hkind, haddress⟩ := kind_secondary h
  refine ⟨(d.note (.command (secondary n))).journal, ?_⟩
  rw [command_secondary hkind, haddress, if_neg (by rw [ha]; decide), if_neg (by rw [ha]; decide)]
  rfl

/-- The secondary address turns the link of a talker around, which is on the wire. -/
theorem command_secondary_talking {n : UInt8} (h : n < 16) (ha : d.arbitration = .talking) :
    ∃ journal, ∀ w, (d.command (secondary n)).onWire w =
      ({ d with channel := some n, journal } : Drive σ).onWire w := by
  obtain ⟨hkind, haddress⟩ := kind_secondary h
  refine ⟨(d.note (.command (secondary n))).journal, fun w => ?_⟩
  rw [command_secondary hkind, haddress, if_neg (by rw [ha]; decide), if_pos ha]
  rfl

theorem command_openSecondary {n : UInt8} (h : n < 16) :
    ∃ journal, d.command (openSecondary n) =
      { d with arbitration := .opening, channel := some n, journal } := by
  obtain ⟨hkind, haddress, hopen⟩ := kind_openSecondary h
  obtain ⟨journal, hj⟩ :=
    setArbitration_eq { d.note (.command (openSecondary n)) with channel := some n } .opening
  refine ⟨journal, ?_⟩
  rw [command_open hkind, haddress, if_pos hopen, hj]
  rfl

theorem command_closeSecondary {n : UInt8} (h : n < 16) :
    ∃ journal, d.command (closeSecondary n) =
      { d with arbitration := .closing, channel := some n, journal } := by
  obtain ⟨hkind, haddress, hclose⟩ := kind_closeSecondary h
  obtain ⟨journal, hj⟩ :=
    setArbitration_eq { d.note (.command (closeSecondary n)) with channel := some n } .closing
  refine ⟨journal, ?_⟩
  rw [command_open hkind, haddress, if_neg (by simp [hclose]), hj]
  rfl

/-- UNLISTEN carries out what was asked for. -/
theorem command_unlisten (d : Drive σ) :
    d.command Serial.unlisten =
      { (d.note (.command Serial.unlisten)).unlisten with channel := none, buffer := #[] } :=
  command_listen (v := Serial.unlisten) rfl

theorem unlisten_listening (ha : d.arbitration = .listening) :
    d.unlisten = d.writeChannel.setArbitration .idle := by
  simp [Drive.unlisten, ha]

theorem unlisten_closing (ha : d.arbitration = .closing) :
    d.unlisten = d.closeChannel.setArbitration .idle := by
  simp [Drive.unlisten, ha]

theorem unlisten_opening (ha : d.arbitration = .opening) (hb : d.buffer ≠ #[]) :
    d.unlisten = d.openChannel.setArbitration .idle := by
  simp [Drive.unlisten, ha, hb]

/-- UNTALK. -/
theorem command_untalk (h : d.device ≤ 30) :
    ∃ journal, d.command untalk = { d with arbitration := .idle, channel := none, journal } := by
  have hdevice : ¬(untalk &&& 0x1F = d.device) := by
    intro he
    rw [← he] at h
    exact absurd h (by decide)
  obtain ⟨journal, hj⟩ := setArbitration_eq { d.note (.command untalk) with channel := none } .idle
  refine ⟨journal, ?_⟩
  rw [command_talk (v := untalk) rfl, if_neg hdevice, hj]
  rfl

theorem collect_push {v : UInt8} (ha : d.arbitration = .opening ∨ d.arbitration = .listening)
    (hb : d.buffer.size < bufferSize) : d.collect v = { d with buffer := d.buffer.push v } := by
  rw [collect_eq, if_pos ha, if_neg (fun h => Nat.ne_of_lt hb h.1), keep, if_pos hb]

/-- A full buffer is written out to make room. -/
theorem collect_full {v : UInt8} {file : Storage.Handle} (ha : d.arbitration = .listening)
    (hb : d.buffer.size = bufferSize) (hc : d.current? = some (.write file)) :
    d.collect v = { d.writeChannel with buffer := #[v] } := by
  rw [collect_eq, if_pos (.inr ha)]
  split_ifs with hfull
  · rfl
  · exact absurd ⟨hb, ha, by rw [hc]⟩ hfull

/-- Of a name as much is kept as there is room for. -/
theorem collect_name (ha : d.arbitration = .opening) (name : List UInt8) (hb : d.buffer.size ≤ bufferSize) :
    name.foldl collect d =
      { d with buffer := d.buffer ++ (name.take (bufferSize - d.buffer.size)).toArray } := by
  induction name generalizing d with
  | nil => simp
  | cons v name ih =>
    rw [List.foldl_cons]
    by_cases hroom : d.buffer.size < bufferSize
    · have hsize : bufferSize - d.buffer.size = bufferSize - (d.buffer.push v).size + 1 := by
        rw [Array.size_push]
        omega
      rw [collect_push (.inl ha) hroom,
        ih (d := { d with buffer := d.buffer.push v }) ha (by rw [Array.size_push]; exact hroom), hsize,
        List.take_succ_cons]
      simp
    · have hfull : d.collect v = d := by
        rw [collect_eq, if_pos (.inl ha), if_neg (by simp [ha]), keep, if_neg hroom]
      rw [hfull, ih ha hb, Nat.sub_eq_zero_of_le (Nat.not_lt.1 hroom)]
      rfl

/-- A drive that has been told a name to open on a channel. -/
def named (d : Drive σ) (n : UInt8) (name : List UInt8) (journal : Array Event) : Drive σ :=
  { d with arbitration := .opening, channel := some n, buffer := name.toArray, journal }

/-- A drive between conversations. -/
def rested (d : Drive σ) (journal : Array Event) : Drive σ :=
  { d with arbitration := .idle, channel := none, buffer := #[], journal }

theorem collect_open_name (hdevice : d.device ≤ 30) {n : UInt8} (hn : n < 16) (name : List UInt8) :
    ∃ journal, name.foldl collect ((d.command (listenTo d.device)).command (openSecondary n)) =
      d.named n (name.take bufferSize) journal := by
  obtain ⟨j₁, h₁⟩ := command_listenTo hdevice
  obtain ⟨j₂, h₂⟩ := command_openSecondary (d := d.command (listenTo d.device)) hn
  refine ⟨j₂, ?_⟩
  rw [collect_name (by rw [h₂]) name (by rw [h₂, h₁]; exact Nat.zero_le _), h₂, h₁]
  simp only [List.size_toArray, List.length_nil, Nat.sub_zero, Array.empty_append]
  rfl

/-- OPEN with a name, up to UNLISTEN. -/
theorem command_open_name (hdevice : d.device ≤ 30) {n : UInt8} (hn : n < 16) {name : List UInt8}
    (hne : name ≠ []) :
    ∃ before after,
      (name.foldl collect ((d.command (listenTo d.device)).command (openSecondary n))).command
        Serial.unlisten = (d.named n (name.take bufferSize) before).openChannel.rested after := by
  obtain ⟨before, hnamed⟩ := collect_open_name hdevice hn name
  have hopens := unlisten_opening
    (d := (d.named n (name.take bufferSize) before).note (.command Serial.unlisten)) rfl
    (by simpa [note, named, bufferSize] using hne)
  obtain ⟨after, hj⟩ := setArbitration_eq
    ((d.named n (name.take bufferSize) before).note (.command Serial.unlisten)).openChannel .idle
  refine ⟨before.push (.command Serial.unlisten), after, ?_⟩
  rw [hnamed, command_unlisten, hopens, hj]
  rfl

end Vic20.Drive
