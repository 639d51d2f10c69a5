import Vic20.Proofs.Drive.Lines

/-! What the channels of a drive can be doing, and what room its names and bursts take. Storage may answer as it
will: a channel that it fails to open is closed. -/

namespace Vic20.Drive

/-- What a channel can be doing, by its number. -/
def Channel.ServedOn (n : Nat) : Channel → Prop
  | .closed => True
  | .directory _ | .read .. => n = 0
  | .write _ => n = 1

variable {σ : Type} {d e : Drive σ}

/-- Each channel does what it is there for, and what has been collected is within its room. -/
def Served (d : Drive σ) : Prop :=
  (∀ n c, d.channel? n = some c → c.ServedOn n) ∧ d.buffer.size ≤ bufferSize

theorem Served.congr (h : Served d) (hc : e.channels = d.channels) (hb : e.buffer = d.buffer) : Served e := by
  unfold Served channel?
  rw [hc, hb]
  exact h

theorem Served.emptied (h : Served d) : Served { d with buffer := #[] } := ⟨h.1, Nat.zero_le _⟩

theorem Served.setChannel (h : Served d) {n : UInt8} {c : Channel} (hc : c.ServedOn n.toNat) :
    Served (d.setChannel n c) := by
  refine ⟨fun k c' hk => ?_, h.2⟩
  by_cases hkn : n.toNat = k
  · subst hkn
    obtain ⟨-, rfl⟩ : _ ∧ c = c' := by
      simpa [channel?, Drive.setChannel, Vector.getElem?_setIfInBounds] using hk
    exact hc
  · refine h.1 k c' ?_
    simpa [channel?, Drive.setChannel, Vector.getElem?_setIfInBounds, hkn] using hk

theorem Served.current (h : Served d) {c : Channel} (hc : d.current? = some c) {n : UInt8}
    (hn : d.channel = some n) : c.ServedOn n.toNat := by
  rw [current?_eq hn] at hc
  exact h.1 n.toNat c hc

theorem Served.setCurrent (h : Served d) {c : Channel}
    (hc : ∀ n, d.channel = some n → c.ServedOn n.toNat) : Served (d.setCurrent c) := by
  cases hn : d.channel with
  | none => simpa [Drive.setCurrent, hn] using h
  | some n =>
    rw [setCurrent_eq hn]
    exact h.setChannel (hc n hn)

theorem Served.setArbitration (h : Served d) (a : Arbitration) : Served (d.setArbitration a) := by
  obtain ⟨journal, hj⟩ := setArbitration_eq d a
  rw [hj]
  exact h

/-! ### Opening and closing -/

variable [Storage σ]

/-- An attempt to open a channel that reaches the storage alone, and gives what the channel is there for. -/
def Opens (d : Drive σ) (n : Nat) (opened : Except StorageError Channel × Drive σ) : Prop :=
  ∃ r storage, opened = (r, { d with storage }) ∧ ∀ c, r = .ok c → c.ServedOn n

theorem opens_openListing (d : Drive σ) : Opens d 0 d.openListing := by
  obtain ⟨r, storage, hr⟩ := useStorage_keeps d Storage.entries .listing
  unfold openListing
  rw [hr]
  cases r with
  | error e => exact ⟨.error e, storage, rfl, by simp⟩
  | ok entries => exact ⟨_, storage, rfl, by rintro c ⟨rfl⟩; exact rfl⟩

theorem opens_openForReading (d : Drive σ) (name : String) : Opens d 0 (d.openForReading name) := by
  obtain ⟨r, storage, hr⟩ := useStorage_keeps d (Storage.openFile · name .read) (.opening name)
  unfold openForReading
  rw [hr]
  cases r with
  | error e => exact ⟨.error e, storage, rfl, by simp⟩
  | ok file =>
    obtain ⟨r, storage', hr⟩ := useStorage_keeps { d with storage } (Storage.size · file) (.opening name)
    simp only [hr]
    cases r with
    | error e => exact ⟨.error e, storage', rfl, by simp⟩
    | ok size => exact ⟨_, storage', rfl, by rintro c ⟨rfl⟩; exact rfl⟩

theorem opens_openForWriting (d : Drive σ) (name : String) : Opens d 1 (d.openForWriting name) := by
  obtain ⟨r, storage, hr⟩ := useStorage_keeps d (Storage.openFile · name .write) (.opening name)
  unfold openForWriting
  rw [hr]
  cases r with
  | error e => exact ⟨.error e, storage, rfl, by simp⟩
  | ok file => exact ⟨_, storage, rfl, by rintro c ⟨rfl⟩; exact rfl⟩

omit [Storage σ] in
theorem Served.install (h : Served d) {n : UInt8} {opened : Except StorageError Channel × Drive σ}
    (ho : Opens d n.toNat opened) : Served (opened.2.install n opened.1) := by
  obtain ⟨r, storage, rfl, hr⟩ := ho
  cases r with
  | ok c =>
    refine Served.setChannel ?_ (hr c rfl)
    exact h
  | error e =>
    refine Served.setChannel ?_ trivial
    exact h

theorem Served.openChannel (h : Served d) : Served d.openChannel := by
  unfold Drive.openChannel
  split
  · exact h
  · rename_i n _
    simp only
    split_ifs with hlisting hread hwrite
    · obtain ⟨rfl, -⟩ := hlisting
      exact Served.install (by exact h) (opens_openListing _)
    · subst hread
      exact Served.install (by exact h) (opens_openForReading _ _)
    · subst hwrite
      exact Served.install (by exact h) (opens_openForWriting _ _)
    · exact h

theorem Served.closeChannel (h : Served d) : Served d.closeChannel := by
  unfold Drive.closeChannel
  split
  · rename_i n c _ _
    refine Served.setChannel ?_ trivial
    cases c with
    | write file =>
      obtain ⟨r, storage, hr⟩ := useStorage_keeps (d.note (.closed n (Channel.write file).kind))
        (Storage.flush · file) .writing
      simp only [hr]
      cases r <;> exact h
    | _ => exact h
  · exact h

theorem Served.writeChannel (h : Served d) : Served d.writeChannel := by
  unfold Drive.writeChannel
  split
  · rename_i file hc
    split_ifs
    · exact h
    · obtain ⟨r, storage, hr⟩ := useStorage_keeps d (Storage.write · file d.buffer.toList) .writing
      rw [hr]
      cases r with
      | ok file' =>
        refine Served.setCurrent ?_ fun n hn => ?_
        · exact h
        · exact h.current hc hn
      | error e => exact h
  · exact h

theorem Served.unlisten (h : Served d) : Served d.unlisten := by
  unfold Drive.unlisten
  refine Served.setArbitration ?_ _
  split_ifs
  · exact h.openChannel
  · exact h.closeChannel
  · exact h.writeChannel

/-! ### Bytes -/

theorem Served.command (h : Served d) (v : UInt8) : Served (d.command v) := by
  by_cases h₂ : (v &&& 0xE0).toNat = 0x20
  · have hnote : Served (d.note (.command v)) := h
    rw [command_listen h₂]
    split_ifs
    · exact hnote.unlisten.emptied
    · exact (hnote.setArbitration .listening).emptied
    · exact hnote.emptied
  by_cases h₄ : (v &&& 0xE0).toNat = 0x40
  · rw [command_talk h₄]
    refine Served.setArbitration ?_ _
    exact h
  by_cases h₆ : (v &&& 0xE0).toNat = 0x60
  · rw [command_secondary h₆]
    split_ifs <;> exact h
  by_cases hE : (v &&& 0xE0).toNat = 0xE0
  · rw [command_open hE]
    refine Served.setArbitration ?_ _
    exact h
  · rw [command_other h₂ h₄ h₆ hE]
    exact h

omit [Storage σ] in
theorem Served.keep (h : Served d) (v : UInt8) : Served (d.keep v) := by
  unfold Drive.keep
  split_ifs with hroom
  · refine ⟨h.1, ?_⟩
    rw [Array.size_push]
    exact hroom
  · exact h

theorem Served.collect (h : Served d) (v : UInt8) : Served (d.collect v) := by
  rw [collect_eq]
  split_ifs
  · exact h.writeChannel.emptied.keep v
  · exact h.keep v
  · exact h

theorem Served.collects (h : Served d) (bytes : List UInt8) : Served (bytes.foldl Drive.collect d) := by
  induction bytes generalizing d with
  | nil => exact h
  | cons v bytes ih => exact ih (h.collect v)

theorem Served.hear (h : Served d) (atn : Bool) (v : UInt8) : Served (d.hear atn v) := by
  unfold Drive.hear
  split_ifs
  · exact h.command v
  · exact h.collect v

theorem Served.fetch (h : Served d) : Served d.fetch := by
  unfold Drive.fetch
  split
  · rename_i v rest hc
    refine Served.setCurrent ?_ fun n hn => ?_
    · exact h
    · exact h.current hc hn
  · rename_i file remaining hc
    obtain ⟨r, storage, hr⟩ := useStorage_keeps d (Storage.read · file) .reading
    rw [hr]
    cases r with
    | ok given =>
      refine Served.setCurrent ?_ fun n hn => ?_
      · exact h
      · exact h.current hc hn
    | error e => exact h
  · exact h

omit [Storage σ] in
theorem Served.of_sameWork (h : Served d) (hw : SameWork d e) : Served e := h.congr hw.channels hw.buffer

theorem Served.tick (h : Served d) (n : Nat) : Served (d.tick n) := by
  have hwork := tick_work d n
  split at hwork
  · rcases hwork with hsame | hfetch
    · exact h.of_sameWork hsame
    · exact h.fetch.of_sameWork hfetch
  · rename_i given _ _
    exact (h.hear given.command given.byte).of_sameWork hwork.2

end Vic20.Drive
