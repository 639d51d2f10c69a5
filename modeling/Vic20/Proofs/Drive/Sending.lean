import Vic20.Proofs.Drive.Bits
import Vic20.Proofs.Drive.Lines
import Vic20.Storage.Disk

/-! A byte that the drive sends, however the time is cut into ticks. Each bit takes two halves, one with the clock
held and one with the clock let go, and sixteen halves make a byte. A half lasts until more than sixty cycles have
passed in it, and a tick ends at most one. So a listener that looks at the lines after every tick misses no half: it
reads the bits of the byte, and whoever lets sixteen halves pass gets all of them (`byte_sent`). -/

namespace Vic20.Drive

/-! ### The listener -/

/-- What a listener sees of the drive after a tick: how long the tick took, and the lines that are pulled. -/
structure Look where
  cycles : Nat
  clk : Bool
  data : Bool
  deriving DecidableEq, Repr

/-- The bits that a listener reads: whenever the clock is let go, data let go is a one and data pulled a zero.
`clk` is the clock as it was before. -/
def bitsRead (clk : Bool) : List Look → List Bool
  | [] => []
  | l :: ls => if clk && !l.clk then (!l.data) :: bitsRead l.clk ls else bitsRead l.clk ls

/-- The times between changes of the clock, the first from `elapsed` cycles ago. -/
def halfTimes (clk : Bool) (elapsed : Nat) : List Look → List Nat
  | [] => []
  | l :: ls =>
    if l.clk = clk then halfTimes clk (elapsed + l.cycles) ls
    else (elapsed + l.cycles) :: halfTimes l.clk 0 ls

theorem bitsRead_append (clk : Bool) (ls ms : List Look) :
    ∃ more, bitsRead clk (ls ++ ms) = bitsRead clk ls ++ more := by
  induction ls generalizing clk with
  | nil => exact ⟨_, rfl⟩
  | cons l ls ih =>
    obtain ⟨more, hmore⟩ := ih l.clk
    refine ⟨more, ?_⟩
    rw [List.cons_append, bitsRead, bitsRead, hmore]
    split_ifs <;> rfl

/-- Eight bits make up their byte, least significant first. -/
theorem foldr_bit_testBit (v : UInt8) : ((List.range 8).map v.toNat.testBit).foldr Nat.bit 0 = v.toNat := by
  obtain ⟨v⟩ := v
  revert v
  decide +kernel

variable {σ : Type} [Storage σ]

/-- Looks at a drive after each tick. -/
def looks (d : Drive σ) : List Signal → List Look
  | [] => []
  | .pass n :: ss => ⟨n, (d.tick n).clkOut, (d.tick n).dataOut⟩ :: (d.tick n).looks ss
  | s :: ss => (d.signal s).looks ss

theorem looks_append (d : Drive σ) (ss ts : List Signal) :
    d.looks (ss ++ ts) = d.looks ss ++ (d.follow ss).looks ts := by
  induction ss generalizing d with
  | nil => rfl
  | cons s ss ih =>
    cases s with
    | pass n => exact congrArg (List.cons _) (ih (d.tick n))
    | atn pulled => exact ih (d.setAtn pulled)
    | clk pulled => exact ih (d.setClk pulled)
    | data pulled => exact ih (d.setData pulled)

/-! ### Halves of bits -/

def Signal.KeepsAtn : Signal → Prop
  | .atn _ => False
  | _ => True

instance (s : Signal) : Decidable s.KeepsAtn := by
  cases s <;> unfold Signal.KeepsAtn <;> infer_instance

/-- The drive is in one of the halves of a bit. -/
def Sends (d : Drive σ) : Prop := d.link = .sendDataInvalid ∨ d.link = .sendDataValid

/-- A tick ends at most one half: it only lets time pass, or it puts a bit on the line, or it takes one off. -/
def MovesOnce (d : Drive σ) (n : Nat) : Prop :=
  d.tick n = { d with elapsed := d.elapsed + n } ∨
    (d.link = .sendDataInvalid ∧ (d.tick n).link = .sendDataValid ∧ (d.tick n).bit = d.bit + 1) ∨
    (d.link = .sendDataValid ∧ ((d.tick n).link = .sendDataInvalid ∨ (d.tick n).link = .waitDataAccepted) ∧
      (d.tick n).bit = d.bit)

/-- The wire in the half after the first `k` of a byte, or at its end. -/
structure Half (v : UInt8) (k : Nat) (w : Wire) : Prop where
  atn : w.atn = false
  seen : w.seenAtn = false
  byte : w.byte = v
  bit : w.bit = UInt8.ofNat ((k + 1) / 2)
  link : w.link = if k = 16 then .waitDataAccepted else if k % 2 = 0 then .sendDataInvalid else .sendDataValid
  clkOut : w.clkOut = decide (k % 2 = 0)
  dataOut : k = 16 → w.dataOut = false

variable {d : Drive σ} {v : UInt8} {w : Wire} {k n : Nat} {us ss : List Signal}

omit [Storage σ] in
theorem Half.steady (h : Half v k w) (ha : d.arbitration ≠ .idle) : Steady d w :=
  ⟨h.seen.trans h.atn.symm, by simp [ha]⟩

omit [Storage σ] in
theorem Half.sends (h : Half v k w) (hk : k < 16) : (d.onWire w).Sends := by
  have hlink := h.link
  rw [if_neg (by omega)] at hlink
  unfold Sends
  rw [onWire_link, hlink]
  split_ifs
  · exact .inl rfl
  · exact .inr rfl

/-- A half lasts sixty cycles at least. -/
theorem Half.tick_bides (h : Half v k w) (hk : k < 16) (ha : d.arbitration ≠ .idle) (ht : w.elapsed + n ≤ bitTime) :
    (d.onWire w).tick n = d.onWire { w with elapsed := w.elapsed + n } := by
  refine Drive.tick_bides (h.steady ha) ?_
  rcases h.sends hk (d := d) with hl | hl <;> rw [onWire_link] at hl <;> simpa [Bides, hl] using ht

/-- The clock is let go, and a bit is on the line. -/
theorem Half.tick_put (h : Half v k w) (hk : k < 16) (heven : k % 2 = 0) (ha : d.arbitration ≠ .idle)
    (ht : bitTime < w.elapsed + n) :
    ∃ w', (d.onWire w).tick n = d.onWire w' ∧ Half v (k + 1) w' ∧ w'.elapsed = 0 ∧ w'.link = .sendDataValid ∧
      w'.bit = w.bit + 1 ∧ w'.dataOut = !v.toNat.testBit (k / 2) := by
  have hlink := h.link
  rw [if_neg (by omega), if_pos heven] at hlink
  have hhalf : (k + 1) / 2 = k / 2 := by omega
  have hbit : w.bit + 1 = UInt8.ofNat ((k + 1 + 1) / 2) := by
    rw [h.bit, ofNat_add_one]
    congr 1
    omega
  refine ⟨_, Drive.tick_put (h.steady ha) hlink ht, ⟨h.atn, h.seen, h.byte, hbit, ?_, ?_, by omega⟩, rfl, rfl, rfl,
    ?_⟩
  · rw [if_neg (by omega), if_neg (by omega)]
  · exact (decide_eq_false (by omega)).symm
  · rw [h.byte, h.bit, hhalf]
    exact bit_eq_testBit v (by omega)

/-- The clock is held again. After the last bit data is let go. -/
theorem Half.tick_end (h : Half v k w) (hk : k < 16) (hodd : k % 2 = 1) (ha : d.arbitration ≠ .idle)
    (ht : bitTime < w.elapsed + n) :
    ∃ w', (d.onWire w).tick n = d.onWire w' ∧ Half v (k + 1) w' ∧ w'.elapsed = 0 ∧
      (w'.link = .sendDataInvalid ∨ w'.link = .waitDataAccepted) ∧ w'.bit = w.bit := by
  have hlink := h.link
  rw [if_neg (by omega), if_neg (by omega)] at hlink
  have hclock : true = decide ((k + 1) % 2 = 0) := (decide_eq_true (by omega)).symm
  have hbit : w.bit = UInt8.ofNat ((k + 1 + 1) / 2) := by
    rw [h.bit]
    congr 1
    omega
  have htick := Drive.tick_putEnd (h.steady ha) hlink ht
  by_cases hlast : k + 1 = 16
  · have height : w.bit = 8 := by rw [h.bit, hlast]; rfl
    rw [if_pos height] at htick
    exact ⟨_, htick, ⟨h.atn, h.seen, h.byte, hbit, by rw [if_pos hlast], hclock, fun _ => rfl⟩, rfl, .inr rfl, rfl⟩
  · have hmore : w.bit ≠ 8 := h.bit ▸ ofNat_ne_eight (by omega)
    rw [if_neg hmore] at htick
    refine ⟨_, htick, ⟨h.atn, h.seen, h.byte, hbit, ?_, hclock, fun hend => absurd hend hlast⟩, rfl, .inl rfl, rfl⟩
    rw [if_neg hlast, if_pos (by omega)]

/-! ### What a run shows -/

/-- What signals show of a byte while it is sent: `bits` bits of it from the one that is next. -/
structure Conveys (d : Drive σ) (v : UInt8) (us : List Signal) (bits : Nat) : Prop where
  sends : ∀ ps qs, us = ps ++ qs → qs ≠ [] → (d.follow ps).Sends
  moves : ∀ ps n qs, us = ps ++ .pass n :: qs → (d.follow ps).MovesOnce n
  times : ∀ t ∈ halfTimes d.clkOut d.elapsed (d.looks us), 60 < t
  read : bitsRead d.clkOut (d.looks us) = (List.range' d.bit.toNat bits).map v.toNat.testBit

theorem Conveys.nil (d : Drive σ) (v : UInt8) : Conveys d v [] 0 where
  sends := by
    intro ps qs h hqs
    exact absurd (List.append_eq_nil_iff.mp h.symm).2 hqs
  moves := by
    intro ps n qs h
    exact absurd (List.append_eq_nil_iff.mp h.symm).2 (List.cons_ne_nil _ _)
  times := by
    intro t ht
    exact absurd ht List.not_mem_nil
  read := rfl

/-- One signal more at the front. -/
theorem Conveys.cons {s : Signal} {bits more : Nat} (h : Conveys (d.signal s) v us bits) (hsends : d.Sends)
    (hmoves : ∀ n, s = .pass n → d.MovesOnce n)
    (htimes : ∀ t ∈ halfTimes d.clkOut d.elapsed (d.looks (s :: us)), 60 < t)
    (hread : bitsRead d.clkOut (d.looks (s :: us)) = (List.range' d.bit.toNat more).map v.toNat.testBit) :
    Conveys d v (s :: us) more where
  sends := by
    intro ps qs hsplit hqs
    cases ps with
    | nil => exact hsends
    | cons p ps =>
      obtain ⟨rfl, hrest⟩ := List.cons.inj hsplit
      exact h.sends ps qs hrest hqs
  moves := by
    intro ps n qs hsplit
    cases ps with
    | nil => exact hmoves n (List.cons.inj hsplit).1
    | cons p ps =>
      obtain ⟨rfl, hrest⟩ := List.cons.inj hsplit
      exact h.moves ps n qs hrest
  times := htimes
  read := hread

/-- A tick within a half. -/
theorem Conveys.bides {bits : Nat} (h : Conveys (d.tick n) v us bits) (hsends : d.Sends)
    (ht : d.tick n = { d with elapsed := d.elapsed + n }) : Conveys d v (.pass n :: us) bits := by
  have hclk : (d.tick n).clkOut = d.clkOut := (congrArg Drive.clkOut ht :)
  have he : (d.tick n).elapsed = d.elapsed + n := (congrArg Drive.elapsed ht :)
  have hbit : (d.tick n).bit = d.bit := (congrArg Drive.bit ht :)
  have hmoves (m : Nat) (hm : Signal.pass n = .pass m) : d.MovesOnce m := Signal.pass.inj hm ▸ .inl ht
  refine Conveys.cons (s := .pass n) h hsends hmoves ?_ ?_
  · have htimes := h.times
    rw [hclk, he] at htimes
    rw [looks, halfTimes, if_pos hclk]
    exact htimes
  · rw [looks, bitsRead, hclk, if_neg (by simp), ← hclk, h.read, hbit]

/-- A tick that lets go of the clock, and so shows a bit. -/
theorem Conveys.put {bits : Nat} (h : Conveys (d.tick n) v us bits) (hl : d.link = .sendDataInvalid)
    (hl' : (d.tick n).link = .sendDataValid) (hbit : (d.tick n).bit = d.bit + 1) (hcount : d.bit.toNat < 8)
    (hclk : d.clkOut = true) (hclk' : (d.tick n).clkOut = false) (ht : 60 < d.elapsed + n)
    (he : (d.tick n).elapsed = 0) (hdata : (d.tick n).dataOut = !v.toNat.testBit d.bit.toNat) :
    Conveys d v (.pass n :: us) (bits + 1) := by
  have hmoves (m : Nat) (hm : Signal.pass n = .pass m) : d.MovesOnce m :=
    Signal.pass.inj hm ▸ .inr (.inl ⟨hl, hl', hbit⟩)
  refine Conveys.cons (s := .pass n) h (.inl hl) hmoves ?_ ?_
  · have htimes := h.times
    rw [he] at htimes
    rw [looks, halfTimes, if_neg (by simp [hclk, hclk'])]
    exact List.forall_mem_cons.mpr ⟨ht, htimes⟩
  · have hnext : (d.bit + 1).toNat = d.bit.toNat + 1 := by
      rw [UInt8.toNat_add, UInt8.toNat_one]
      omega
    rw [looks, bitsRead, if_pos (by simp [hclk, hclk']), h.read, hdata, Bool.not_not, hbit, hnext]
    rfl

/-- A tick that holds the clock again. -/
theorem Conveys.ends {bits : Nat} (h : Conveys (d.tick n) v us bits) (hl : d.link = .sendDataValid)
    (hl' : (d.tick n).link = .sendDataInvalid ∨ (d.tick n).link = .waitDataAccepted)
    (hbit : (d.tick n).bit = d.bit) (hclk : d.clkOut = false) (hclk' : (d.tick n).clkOut = true)
    (ht : 60 < d.elapsed + n) (he : (d.tick n).elapsed = 0) : Conveys d v (.pass n :: us) bits := by
  have hmoves (m : Nat) (hm : Signal.pass n = .pass m) : d.MovesOnce m :=
    Signal.pass.inj hm ▸ .inr (.inr ⟨hl, hl', hbit⟩)
  refine Conveys.cons (s := .pass n) h (.inr hl) hmoves ?_ ?_
  · have htimes := h.times
    rw [he] at htimes
    rw [looks, halfTimes, if_neg (by simp [hclk, hclk'])]
    exact List.forall_mem_cons.mpr ⟨ht, htimes⟩
  · rw [looks, bitsRead, if_neg (by simp [hclk]), h.read, hbit]

/-- Who has seen eight bits has read the byte, and looking on does not change it. -/
theorem Conveys.reads_byte (h : Conveys d d.byte us 8) (hclk : d.clkOut = true) (hbit : d.bit = 0)
    (vs : List Signal) : ((bitsRead true (d.looks (us ++ vs))).take 8).foldr Nat.bit 0 = d.byte.toNat := by
  obtain ⟨more, hmore⟩ := bitsRead_append true (d.looks us) ((d.follow us).looks vs)
  have hread : bitsRead true (d.looks us) = (List.range' 0 8).map d.byte.toNat.testBit := by
    have hread := h.read
    rw [hclk, hbit] at hread
    exact hread
  rw [← List.range_eq_range'] at hread
  rw [looks_append, hmore, hread, List.take_left' (by rw [List.length_map, List.length_range]), foldr_bit_testBit]

/-! ### The byte -/

/-- A half goes on, whatever the computer does to its lines. -/
theorem Half.congr (h : Half v k w) (clk data : Bool) (elapsed : Nat) : Half v k { w with clk, data, elapsed } :=
  ⟨h.atn, h.seen, h.byte, h.bit, h.link, h.clkOut, h.dataOut⟩

/-- A run up to the end of the byte, or to the end of the signals if that comes before. -/
structure Run (d : Drive σ) (v : UInt8) (k : Nat) (w : Wire) (us vs : List Signal) (k' : Nat) (w' : Wire) : Prop where
  follow : (d.onWire w).follow us = d.onWire w'
  half : Half v k' w'
  le : k ≤ k'
  conveys : Conveys (d.onWire w) v us ((k' + 1) / 2 - (k + 1) / 2)
  ends : k' = 16 ∨ vs = [] ∧ k' < 16

variable {w₁ w' : Wire} {k₁ k' : Nat} {vs : List Signal}

/-- One signal more before a run. -/
theorem Run.cons {s : Signal} (h : Run d v k₁ w₁ us vs k' w') (hk : k ≤ k₁)
    (hs : (d.onWire w).signal s = d.onWire w₁)
    (hconveys : Conveys (d.onWire w) v (s :: us) ((k' + 1) / 2 - (k + 1) / 2)) :
    Run d v k w (s :: us) vs k' w' where
  follow := by
    change ((d.onWire w).signal s).follow us = _
    rw [hs, h.follow]
  half := h.half
  le := Nat.le_trans hk h.le
  conveys := hconveys
  ends := h.ends

omit [Storage σ] in
theorem Half.bit_toNat (h : Half v k w) (hk : k ≤ 16) : w.bit.toNat = (k + 1) / 2 := by
  have hlt : (k + 1) / 2 < 256 := by omega
  rw [h.bit]
  exact UInt8.toNat_ofNat_of_lt' hlt

/-- A tick ends the half, and begins a run with any run from the next half on. -/
structure EndsHalf (d : Drive σ) (v : UInt8) (k : Nat) (w : Wire) (n : Nat) (w₁ : Wire) : Prop where
  tick : (d.onWire w).tick n = d.onWire w₁
  half : Half v (k + 1) w₁
  elapsed : w₁.elapsed = 0
  run : ∀ us vs k' w', Run d v (k + 1) w₁ us vs k' w' → Run d v k w (.pass n :: us) vs k' w'

/-- With the clock held: the run shows one bit more than what follows. -/
theorem Half.over_put (h : Half v k w) (hk : k < 16) (heven : k % 2 = 0) (ha : d.arbitration ≠ .idle)
    (ht : bitTime < w.elapsed + n) : ∃ w₁, EndsHalf d v k w n w₁ := by
  obtain ⟨w₁, htick, hhalf, he, hl, hbit, hdata⟩ := h.tick_put hk heven ha ht
  refine ⟨w₁, htick, hhalf, he, fun us vs k' w' hrun => hrun.cons (Nat.le_succ k) htick ?_⟩
  have hle := hrun.le
  have hcount := h.bit_toNat (Nat.le_of_lt hk)
  have hbits : (k' + 1) / 2 - (k + 1) / 2 = (k' + 1) / 2 - (k + 1 + 1) / 2 + 1 := by omega
  have hplace : w.bit.toNat = k / 2 := by omega
  have hlink := h.link
  have hclk := h.clkOut
  have hclk' := hhalf.clkOut
  rw [if_neg (by omega), if_pos heven] at hlink
  rw [decide_eq_true heven] at hclk
  rw [decide_eq_false (by omega)] at hclk'
  rw [hbits]
  refine Conveys.put (htick ▸ hrun.conveys) hlink ?_ ?_ ?_ hclk ?_ ht ?_ ?_
  all_goals try rw [htick]
  · exact hl
  · exact hbit
  · rw [onWire_bit, hplace]
    omega
  · exact hclk'
  · exact he
  · rw [onWire_dataOut, onWire_bit, hdata, hplace]

/-- With the clock let go: the bit has been shown. -/
theorem Half.over_end (h : Half v k w) (hk : k < 16) (hodd : k % 2 = 1) (ha : d.arbitration ≠ .idle)
    (ht : bitTime < w.elapsed + n) : ∃ w₁, EndsHalf d v k w n w₁ := by
  obtain ⟨w₁, htick, hhalf, he, hl, hbit⟩ := h.tick_end hk hodd ha ht
  refine ⟨w₁, htick, hhalf, he, fun us vs k' w' hrun => hrun.cons (Nat.le_succ k) htick ?_⟩
  have hbits : (k' + 1) / 2 - (k + 1) / 2 = (k' + 1) / 2 - (k + 1 + 1) / 2 := by omega
  have hlink := h.link
  have hclk := h.clkOut
  have hclk' := hhalf.clkOut
  rw [if_neg (by omega), if_neg (by omega)] at hlink
  rw [decide_eq_false (by omega)] at hclk
  rw [decide_eq_true (by omega)] at hclk'
  rw [hbits]
  refine Conveys.ends (htick ▸ hrun.conveys) hlink ?_ ?_ hclk ?_ ht ?_
  all_goals rw [htick]
  · exact hl
  · exact hbit
  · exact hclk'
  · exact he

theorem Half.over (h : Half v k w) (hk : k < 16) (ha : d.arbitration ≠ .idle) (ht : bitTime < w.elapsed + n) :
    ∃ w₁, EndsHalf d v k w n w₁ := by
  rcases Nat.mod_two_eq_zero_or_one k with heven | hodd
  · exact h.over_put hk heven ha ht
  · exact h.over_end hk hodd ha ht

/-- Signals are a run, with what comes after the byte left over. -/
theorem Half.run (h : Half v k w) (hk : k < 16) (ha : d.arbitration ≠ .idle) (hss : ∀ s ∈ ss, s.KeepsAtn) :
    ∃ us vs k' w', ss = us ++ vs ∧ Run d v k w us vs k' w' := by
  induction ss generalizing k w with
  | nil =>
    refine ⟨[], [], k, w, rfl, rfl, h, Nat.le_refl _, ?_, .inr ⟨rfl, hk⟩⟩
    rw [Nat.sub_self]
    exact Conveys.nil _ _
  | cons s ss ih =>
    obtain ⟨hs, hrest⟩ := List.forall_mem_cons.mp hss
    cases s with
    | atn pulled => exact absurd hs id
    | clk pulled =>
      obtain ⟨us, vs, k', w', rfl, hrun⟩ := ih (h.congr pulled w.data w.elapsed) hk hrest
      refine ⟨_, vs, k', w', rfl, hrun.cons (Nat.le_refl k) rfl ?_⟩
      exact Conveys.cons (s := .clk pulled) hrun.conveys (h.sends hk) (fun n hn => nomatch hn) hrun.conveys.times
        hrun.conveys.read
    | data pulled =>
      obtain ⟨us, vs, k', w', rfl, hrun⟩ := ih (h.congr w.clk pulled w.elapsed) hk hrest
      refine ⟨_, vs, k', w', rfl, hrun.cons (Nat.le_refl k) rfl ?_⟩
      exact Conveys.cons (s := .data pulled) hrun.conveys (h.sends hk) (fun n hn => nomatch hn) hrun.conveys.times
        hrun.conveys.read
    | pass n =>
      by_cases ht : w.elapsed + n ≤ bitTime
      · have htick := h.tick_bides hk ha ht
        obtain ⟨us, vs, k', w', rfl, hrun⟩ := ih (h.congr w.clk w.data (w.elapsed + n)) hk hrest
        refine ⟨_, vs, k', w', rfl, Run.cons (s := .pass n) hrun (Nat.le_refl k) htick ?_⟩
        exact Conveys.bides (htick ▸ hrun.conveys) (h.sends hk) htick
      · obtain ⟨w₁, htick, hhalf, -, hover⟩ := h.over hk ha (Nat.lt_of_not_le ht)
        by_cases hlast : k + 1 = 16
        · have hdone : Run d v (k + 1) w₁ [] ss (k + 1) w₁ := by
            refine ⟨rfl, hhalf, Nat.le_refl _, ?_, .inl hlast⟩
            rw [Nat.sub_self]
            exact Conveys.nil _ _
          exact ⟨_, ss, _, w₁, rfl, hover _ _ _ _ hdone⟩
        · obtain ⟨us, vs, k', w', rfl, hrun⟩ := ih hhalf (by omega) hrest
          exact ⟨_, vs, k', w', rfl, hover _ _ _ _ hrun⟩

/-! ### Sixteen halves -/

/-- Within more than sixty cycles a half ends. -/
theorem Half.ends_within (h : Half v k w) (hk : k < 16) (ha : d.arbitration ≠ .idle) (hss : ∀ s ∈ ss, s.KeepsAtn)
    (he : w.elapsed ≤ bitTime) (ht : bitTime < w.elapsed + cyclesIn ss) :
    ∃ us vs w', ss = us ++ vs ∧ (d.onWire w).follow us = d.onWire w' ∧ Half v (k + 1) w' ∧ w'.elapsed = 0 := by
  induction ss generalizing w with
  | nil => exact absurd ht (Nat.not_lt.mpr he)
  | cons s ss ih =>
    obtain ⟨hs, hrest⟩ := List.forall_mem_cons.mp hss
    cases s with
    | atn pulled => exact absurd hs id
    | clk pulled =>
      have ht : bitTime < w.elapsed + cyclesIn ss := Nat.zero_add (cyclesIn ss) ▸ ht
      obtain ⟨us, vs, w', rfl, hfollow, hhalf⟩ := ih (h.congr pulled w.data w.elapsed) hrest he ht
      exact ⟨.clk pulled :: us, vs, w', rfl, hfollow, hhalf⟩
    | data pulled =>
      have ht : bitTime < w.elapsed + cyclesIn ss := Nat.zero_add (cyclesIn ss) ▸ ht
      obtain ⟨us, vs, w', rfl, hfollow, hhalf⟩ := ih (h.congr w.clk pulled w.elapsed) hrest he ht
      exact ⟨.data pulled :: us, vs, w', rfl, hfollow, hhalf⟩
    | pass n =>
      have ht : bitTime < w.elapsed + n + cyclesIn ss := Nat.add_assoc w.elapsed n _ ▸ ht
      by_cases hn : w.elapsed + n ≤ bitTime
      · have htick := h.tick_bides hk ha hn
        obtain ⟨us, vs, w', rfl, hfollow, hhalf⟩ := ih (h.congr w.clk w.data (w.elapsed + n)) hrest hn ht
        refine ⟨.pass n :: us, vs, w', rfl, ?_, hhalf⟩
        change ((d.onWire w).tick n).follow us = _
        rw [htick, hfollow]
      · obtain ⟨w', htick, hhalf, he', -⟩ := h.over hk ha (Nat.lt_of_not_le hn)
        exact ⟨[.pass n], ss, w', rfl, htick, hhalf, he'⟩

/-- Signals that make up `n` stretches of more than sixty cycles each. -/
def Stretches (n : Nat) (ss : List Signal) : Prop :=
  ∃ gs : List (List Signal), gs.length = n ∧ gs.flatten = ss ∧ ∀ g ∈ gs, 60 < cyclesIn g

/-- Each stretch ends a half. What is left of it then counts for the next half. -/
theorem Half.completes (h : Half v k w) (hk : k ≤ 16) (ha : d.arbitration ≠ .idle) (he : w.elapsed = 0)
    (hss : ∀ s ∈ ss, s.KeepsAtn) (hstretches : Stretches (16 - k) ss) :
    ∃ us vs w', ss = us ++ vs ∧ (d.onWire w).follow us = d.onWire w' ∧ Half v 16 w' := by
  obtain ⟨gs, hlength, rfl, hgs⟩ := hstretches
  induction hn : 16 - k generalizing k w gs with
  | zero =>
    obtain rfl : k = 16 := by omega
    exact ⟨[], _, w, rfl, rfl, h⟩
  | succ n ih =>
    obtain ⟨g, gs, rfl⟩ := List.exists_cons_of_length_eq_add_one (hlength.trans hn)
    obtain ⟨hg, hrest⟩ := List.forall_mem_cons.mp hgs
    rw [List.flatten_cons] at hss ⊢
    have htime : bitTime < w.elapsed + cyclesIn g := he ▸ (Nat.zero_add _).symm ▸ hg
    obtain ⟨us, vs, w₁, rfl, hfollow, hhalf, he₁⟩ := h.ends_within (by omega) ha
      (fun s hs => hss s (List.mem_append_left _ hs)) (he ▸ Nat.zero_le _) htime
    cases gs with
    | nil =>
      obtain rfl : k = 15 := by
        rw [List.length_singleton] at hlength
        omega
      exact ⟨us, vs ++ [], w₁, List.append_assoc _ _ _, hfollow, hhalf⟩
    | cons g₂ gs =>
      obtain ⟨hg₂, hmore⟩ := List.forall_mem_cons.mp hrest
      -- `vs` comes before the next stretch and makes it longer.
      have hsplit : us ++ vs ++ (g₂ :: gs).flatten = us ++ ((vs ++ g₂) :: gs).flatten := by simp
      have hlong : 60 < cyclesIn (vs ++ g₂) := by
        rw [cyclesIn_append]
        omega
      rw [hsplit] at hss ⊢
      have hlength' : ((vs ++ g₂) :: gs).length = 16 - (k + 1) := by
        simp only [List.length_cons] at hlength ⊢
        omega
      obtain ⟨us', vs', w', hflatten, hfollow', hdone⟩ := ih hhalf (by omega) he₁ ((vs ++ g₂) :: gs) hlength'
        (List.forall_mem_cons.mpr ⟨hlong, hmore⟩) (fun s hs => hss s (List.mem_append_right _ hs)) (by omega)
      refine ⟨us ++ us', vs', w', ?_, ?_, hdone⟩
      · rw [hflatten, List.append_assoc]
      · rw [follow_append, hfollow, hfollow']

/-- While the drive is still sending there have not been sixteen stretches: the byte would be over. -/
theorem Half.not_stretches (h : Half v 0 w) (ha : d.arbitration ≠ .idle) (he : w.elapsed = 0)
    (hss : ∀ s ∈ ss, s.KeepsAtn) (hsends : ∀ ps qs, ss = ps ++ qs → ((d.onWire w).follow ps).Sends) :
    ¬Stretches 16 ss := by
  intro hstretches
  obtain ⟨ps, qs, w', hsplit, hfollow, hdone⟩ := h.completes (by decide) ha he hss hstretches
  have hover : ((d.onWire w).follow ps).link = .waitDataAccepted := by
    rw [hfollow]
    exact hdone.link
  rcases hsends ps qs hsplit with hl | hl <;> exact absurd (hover.symm.trans hl) (by decide)

/-! ### The start of a byte -/

/-- Whatever the link comes from, it begins a half with the clock held. -/
theorem step_begins (hl : w.link ≠ .sendDataInvalid) (h : (d.onWire w).step.link = .sendDataInvalid) :
    (d.onWire w).step = d.onWire { w with clkOut := true, link := .sendDataInvalid, elapsed := 0 } := by
  cases hlink : w.link
  case sendDataInvalid => exact absurd hlink hl
  case dataAccepted =>
    by_cases hd : w.data = true
    · rw [step_bides (by simpa [Bides, hlink] using hd), onWire_link, hlink] at h
      cases h
    · rw [step_accept hlink (by simpa using hd), receive_onWire, onWire_link] at h
      split_ifs at h <;> simp [Wire.turned, Wire.acknowledged] at h
      split_ifs at h
  case waitReceiverReady =>
    by_cases hd : w.data = true
    · rw [step_bides (by simpa [Bides, hlink] using hd), onWire_link, hlink] at h
      cases h
    · obtain ⟨byte, last, hfetch⟩ := fetch_wire (d.onWire { w with link := .readyToSend, elapsed := 0 })
      rw [step_fetch hlink (by simpa using hd)] at h
      exact absurd (h.symm.trans (congrArg Wire.link hfetch)) (by simp)
  all_goals
    unfold step at h ⊢
    simp only [onWire_link, hlink] at h ⊢
    split_ifs at h ⊢ <;> first | rfl | (exact absurd h (by simp [enter, takeBit, hlink]))

/-- A drive that is addressed to talk, and has just begun a byte. -/
theorem tick_begins {e : Drive σ} (hatn : e.atn = false) (hact : e.active = true) (hl : e.link ≠ .sendDataInvalid)
    (hl' : (e.tick n).link = .sendDataInvalid) (hbit : (e.tick n).bit = 0) :
    ∃ w, e.tick n = e.onWire w ∧ e.arbitration ≠ .idle ∧ w.elapsed = 0 ∧ Half w.byte 0 w := by
  have ha : e.arbitration ≠ .idle := fun hi => by simp [active, hatn, hi] at hact
  have htick : e.tick n = (e.onWire { e.wire with seenAtn := false, elapsed := e.elapsed + n }).step := by
    have hw : ({ e.wire with seenAtn := e.wire.atn } : Wire) = { e.wire with seenAtn := false } :=
      congrArg (fun b => { e.wire with seenAtn := b }) hatn
    have hsteady : Steady e { e.wire with seenAtn := false } := ⟨hatn.symm, by simp [ha]⟩
    have hseen : (e.onWire e.wire).tick n = (e.onWire { e.wire with seenAtn := e.wire.atn }).tick n :=
      tick_seen (.inl hatn)
    rw [hw, tick_steady hsteady] at hseen
    exact hseen
  rw [htick] at hl' hbit ⊢
  have hbegins := step_begins (w := { e.wire with seenAtn := false, elapsed := e.elapsed + n }) hl hl'
  rw [hbegins] at hbit ⊢
  exact ⟨_, rfl, ha, rfl, hatn, rfl, rfl, hbit, rfl, rfl, fun h => absurd h (by decide)⟩

/-- A byte that a talker begins is sent bit by bit, whatever the ticks and whatever the computer does to the clock
and data meanwhile. Up to its end (`us`) each tick ends one half at most, no half is shorter than sixty-one cycles,
and each time the clock is let go data shows the next bit. The byte is over after eight bits, with the clock held and
data let go, and sixteen stretches of more than sixty cycles are enough for that. Who has looked after every tick has
then read the byte, also if he goes on looking. -/
theorem byte_sent {e : Drive σ} (hatn : e.atn = false) (hact : e.active = true) (hl : e.link ≠ .sendDataInvalid)
    (hl' : (e.tick n).link = .sendDataInvalid) (hbit : (e.tick n).bit = 0) (hss : ∀ s ∈ ss, s.KeepsAtn) :
    let d := e.tick n
    d.clkOut = true ∧ d.elapsed = 0 ∧
      ∃ us vs bits, ss = us ++ vs ∧ Conveys d d.byte us bits ∧
        ((d.follow us).link = .waitDataAccepted ∧ (d.follow us).clkOut = true ∧ (d.follow us).dataOut = false ∧
            bits = 8 ∧ ((bitsRead true (d.looks ss)).take 8).foldr Nat.bit 0 = d.byte.toNat ∨
          (d.follow us).Sends ∧ vs = [] ∧ bits ≤ 8 ∧ ¬Stretches 16 ss) := by
  intro d
  obtain ⟨w, hd, ha, he, hhalf⟩ := tick_begins hatn hact hl hl' hbit
  have hdw : d = e.onWire w := hd
  have hclk : d.clkOut = true := hdw ▸ hhalf.clkOut
  have hbyte : d.byte = w.byte := congrArg Drive.byte hdw
  refine ⟨hclk, hdw ▸ he, ?_⟩
  obtain ⟨us, vs, k, w', rfl, hrun⟩ := hhalf.run (by decide) ha hss
  have hconveys : Conveys d d.byte us ((k + 1) / 2) := hbyte ▸ hdw ▸ hrun.conveys
  have hfollow : d.follow us = e.onWire w' := hdw ▸ hrun.follow
  refine ⟨us, vs, (k + 1) / 2, rfl, hconveys, ?_⟩
  rw [hfollow]
  rcases hrun.ends with rfl | ⟨rfl, hk⟩
  · exact .inl ⟨hrun.half.link, hrun.half.clkOut, hrun.half.dataOut rfl, rfl, hconveys.reads_byte hclk hbit vs⟩
  · have hsends (ps qs : List Signal) (hsplit : us = ps ++ qs) : ((e.onWire w).follow ps).Sends := by
      by_cases hqs : qs = []
      · rw [hqs, List.append_nil] at hsplit
        rw [← hsplit, hrun.follow]
        exact hrun.half.sends hk
      · exact hdw ▸ hconveys.sends ps qs hsplit hqs
    rw [List.append_nil] at hss ⊢
    exact .inr ⟨hrun.half.sends hk, rfl, by omega, hhalf.not_stretches ha he hss hsends⟩

/-- A talker about to send a byte. -/
def offering : Drive Disk := { device := 8, link := .readyToSend, byte := 0xA6, arbitration := .talking }

/-- Sixteen uneven halves, during which the computer takes hold of both lines. -/
theorem byte_sent_uneven :
    let d := offering.tick 61
    let ss : List Signal := .data true :: .clk true :: (List.replicate 16 [.pass 60, .pass 0, .pass 40]).flatten
    offering.atn = false ∧ offering.active = true ∧ offering.link ≠ .sendDataInvalid ∧ d.link = .sendDataInvalid ∧
      d.bit = 0 ∧ (∀ s ∈ ss, s.KeepsAtn) ∧ Stretches 16 ss ∧
      ((bitsRead true (d.looks ss)).take 8).foldr Nat.bit 0 = 0xA6 := by
  intro d ss
  have hlines : ∀ s ∈ ss, s.KeepsAtn := by decide
  have hstretches : Stretches 16 ss :=
    ⟨(.data true :: .clk true :: [.pass 60, .pass 0, .pass 40]) :: List.replicate 15 [.pass 60, .pass 0, .pass 40],
      rfl, rfl, by decide⟩
  obtain ⟨-, -, us, vs, bits, -, -, ⟨-, -, -, -, hread⟩ | ⟨-, -, -, hshort⟩⟩ :=
    byte_sent (e := offering) (n := 61) rfl rfl (by decide) rfl rfl hlines
  · exact ⟨rfl, rfl, by decide, rfl, rfl, hlines, hstretches, hread⟩
  · exact absurd hstretches hshort

end Vic20.Drive
