import Vic20.Proofs.Drive.Channels

/-! What holds of a drive at all times from when it is new, in whatever order the computer signals, time passes,
storage is attached and the drive is reset, and whatever the storage answers. -/

namespace Vic20.Drive

/-- What is done to a drive from outside. -/
inductive Operation (σ : Type) where
  | signal (s : Signal)
  | attach (storage : σ)
  | listings (long : Bool)
  | reset
  | takeJournal

variable {σ : Type} [Storage σ] {d : Drive σ}

def apply (d : Drive σ) : Operation σ → Drive σ
  | .signal s => d.signal s
  | .attach storage => { d with storage := some storage }
  | .listings long => { d with longDirectory := long }
  | .reset => d.reset
  | .takeJournal => d.takeJournal.2

def operate (d : Drive σ) (os : List (Operation σ)) : Drive σ := os.foldl apply d

theorem operate_append (d : Drive σ) (os ps : List (Operation σ)) :
    d.operate (os ++ ps) = (d.operate os).operate ps := List.foldl_append

/-- What each operation keeps: the lines that the link allows, rest, and what the channels are there for. -/
structure Kept (d : Drive σ) : Prop where
  wire : d.wire.Sound
  rests : Rests d
  served : Served d

omit [Storage σ] in
theorem Kept.reset (d : Drive σ) : Kept d.reset where
  wire := ⟨rfl, rfl⟩
  rests := fun _ => ⟨rfl, rfl⟩
  served := by
    refine ⟨fun n c hc => ?_, Nat.zero_le _⟩
    rw [channel?, Drive.reset, Vector.getElem?_replicate] at hc
    split_ifs at hc
    obtain rfl := Option.some.inj hc
    exact trivial

omit [Storage σ] in
theorem Kept.new (device : UInt8) : Kept (new device : Drive σ) := Kept.reset (Drive.new device)

theorem Kept.signal (h : Kept d) (s : Signal) : Kept (d.signal s) := by
  cases s with
  | atn pulled =>
    exact ⟨setAtn_wire d h.wire pulled, h.rests.setAtn pulled,
      h.served.of_sameWork (sameWork_setAtn d pulled)⟩
  | clk pulled => exact ⟨h.wire, h.rests, h.served⟩
  | data pulled => exact ⟨h.wire, h.rests, h.served⟩
  | pass cycles => exact ⟨(tick_wire d h.wire cycles).1, h.rests.tick h.wire cycles, h.served.tick cycles⟩

theorem Kept.apply (h : Kept d) (o : Operation σ) : Kept (d.apply o) := by
  cases o with
  | signal s => exact h.signal s
  | reset => exact Kept.reset d
  | attach storage => exact ⟨h.wire, h.rests, h.served⟩
  | listings long => exact ⟨h.wire, h.rests, h.served⟩
  | takeJournal => exact ⟨h.wire, h.rests, h.served⟩

theorem Kept.operate (h : Kept d) (os : List (Operation σ)) : Kept (d.operate os) := by
  induction os generalizing d with
  | nil => exact h
  | cons o os ih => exact ih (h.apply o)

/-- A drive that has been new. -/
def Reached (d : Drive σ) : Prop := ∃ device os, d = (Drive.new device : Drive σ).operate os

theorem Reached.apply (h : Reached d) (o : Operation σ) : Reached (d.apply o) := by
  obtain ⟨device, os, rfl⟩ := h
  exact ⟨device, os ++ [o], (operate_append _ os [o]).symm⟩

theorem Reached.kept (h : Reached d) : Kept d := by
  obtain ⟨device, os, rfl⟩ := h
  exact (Kept.new device).operate os

/-! ### The invariant -/

/-- What holds of a drive at all times. -/
structure Invariant (d : Drive σ) : Prop where
  /-- A bit about to be taken or put is one of the eight. -/
  bit_le : d.link = .waitDataValid ∨ d.link = .sendDataInvalid → d.bit ≤ 7
  bit_counted : d.link = .waitDataInvalid ∨ d.link = .sendDataValid → 1 ≤ d.bit ∧ d.bit ≤ 8
  buffer_size : d.buffer.size ≤ 256
  clk_pulled : d.clkOut = true →
    d.link = .turnAroundReady ∨ d.link = .sendDataInvalid ∨ d.link = .waitDataAccepted ∨ d.link = .goToIdle
  released : d.link = .idle → d.clkOut = false ∧ d.dataOut = false
  held : d.link = .senderProbing ∨ d.link = .turnAround → d.dataOut = true ∧ d.clkOut = false
  reading : ∀ n, (∃ rest, d.channel? n = some (.directory rest)) ∨
    (∃ file remaining, d.channel? n = some (.read file remaining)) → n = 0
  writing : ∀ n, (∃ file, d.channel? n = some (.write file)) → n = 1
  closed : ∀ n c, 2 ≤ n → d.channel? n = some c → c = .closed
  rest : d.active = false → d.link = .idle ∧ d.clkOut = false ∧ d.dataOut = false ∧ d.seenAtn = false

omit [Storage σ] in
theorem Kept.lines (h : Kept d) {link : Link} (hl : d.link = link) : link.Allows d.clkOut d.dataOut d.bit :=
  hl ▸ h.wire

omit [Storage σ] in
theorem Kept.invariant (h : Kept d) : Invariant d where
  bit_le := by
    rintro (hl | hl)
    · exact (h.lines hl).2
    · exact h.lines hl
  bit_counted := by
    rintro (hl | hl) <;> exact (h.lines hl).2
  buffer_size := h.served.2
  clk_pulled := by
    intro hclk
    cases hl : d.link <;> have hlines := h.lines hl <;> simp_all [Link.Allows]
  released := h.lines
  held := by
    rintro (hl | hl) <;> exact (h.lines hl).symm
  reading := by
    rintro n (⟨rest, hc⟩ | ⟨file, remaining, hc⟩) <;> exact h.served.1 n _ hc
  writing := by
    rintro n ⟨file, hc⟩
    exact h.served.1 n _ hc
  closed := by
    intro n c hn hc
    have hserved := h.served.1 n c hc
    cases c with
    | closed => rfl
    | _ =>
      simp only [Channel.ServedOn] at hserved
      omega
  rest := by
    intro hi
    obtain ⟨hl, hseen⟩ := h.rests hi
    exact ⟨hl, (h.lines hl).1, (h.lines hl).2, hseen⟩

end Vic20.Drive
