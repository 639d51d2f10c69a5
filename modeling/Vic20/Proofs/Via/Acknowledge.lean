import Vic20.Proofs.Via.Operations

/-! How flags come and go. Only a tick sets a flag, and it stays set until an access that is meant for its source takes
it away. -/

namespace Vic20.Via

/-! ### What is acknowledged -/

/-- The register that a program reads to acknowledge an interrupt. -/
def Source.readToAcknowledge : Source → Nat
  | timer1 => 0x4
  | timer2 => 0x8
  | ca1 => 0x1
  | cb1 => 0x0

/-- The registers that a program writes to acknowledge an interrupt, whatever it writes. -/
def Source.writtenToAcknowledge : Source → List Nat
  | timer1 => [0x5, 0x7]
  | timer2 => [0x9]
  | ca1 => [0x1]
  | cb1 => [0x0]

variable {σ : Type}

/-- The operation takes the flag of a source away. -/
def Operation.acknowledges (s : Source) : Operation σ → Bool
  | .read register _ => register.toNat % 16 == s.readToAcknowledge
  | .write register v _ =>
    s.writtenToAcknowledge.contains (register.toNat % 16) || register.toNat % 16 == 0xD && v &&& s.flag != 0
  | .signal _ | .tick _ => false
  | .reset => true

/-- The flags that a write clears. -/
def writeMask (register : Nat) (v : UInt8) : UInt8 :=
  match register with
  | 0x0 => cb1Flag ||| cb2Flag
  | 0x1 => ca1Flag ||| ca2Flag
  | 0x5 | 0x7 => timer1Flag
  | 0x9 => timer2Flag
  | 0xD => v ||| 0x80
  | _ => 0

/-- The flags that an operation clears. -/
def Operation.cleared : Operation σ → UInt8
  | .read register _ => readMask (register.toNat % 16)
  | .write register v _ => writeMask (register.toNat % 16) v
  | .signal _ | .tick _ => 0
  | .reset => 0xFF

theorem readMask_flag (register : Nat) (s : Source) :
    (readMask register &&& s.flag != 0) = (register == s.readToAcknowledge) := by
  unfold readMask
  split
  next => cases s <;> decide
  next => cases s <;> decide
  next => cases s <;> decide
  next => cases s <;> decide
  next => cases s <;> simp_all [Source.readToAcknowledge]

theorem writeMask_flag (register : Nat) (v : UInt8) (s : Source) :
    (writeMask register v &&& s.flag != 0) =
      (s.writtenToAcknowledge.contains register || register == 0xD && v &&& s.flag != 0) := by
  unfold writeMask
  split
  next => cases s <;> simp [Source.writtenToAcknowledge] <;> decide
  next => cases s <;> simp [Source.writtenToAcknowledge] <;> decide
  next => cases s <;> simp [Source.writtenToAcknowledge] <;> decide
  next => cases s <;> simp [Source.writtenToAcknowledge] <;> decide
  next => cases s <;> simp [Source.writtenToAcknowledge] <;> decide
  next =>
    have htop : (0x80 &&& s.flag != 0) = false := by cases s <;> decide
    rw [or_meets, htop]
    cases s <;> simp [Source.writtenToAcknowledge]
  next => cases s <;> simp_all [Source.writtenToAcknowledge]

theorem cleared_flag (o : Operation σ) (s : Source) : (o.cleared &&& s.flag != 0) = o.acknowledges s := by
  cases o with
  | read register wires => exact readMask_flag _ s
  | write register v wires => exact writeMask_flag _ v s
  | signal | tick => exact bne_eq_false_iff_eq.2 UInt8.zero_and
  | reset =>
    show (0xFF &&& s.flag != 0) = true
    cases s <;> decide

/-- The flags that an operation sets. -/
def raised (via : Via) : Operation σ → UInt8
  | .tick cycles => marks (Source.occurs · via cycles)
  | .read .. | .write .. | .signal _ | .reset => 0

theorem raised_flag (via : Via) (o : Operation σ) (s : Source) : (via.raised o &&& s.flag != 0) = via.raises s o := by
  cases o with
  | tick cycles =>
    rw [raises_tick, raised, marks_flag]
  | read | write | signal | reset => exact bne_eq_false_iff_eq.2 UInt8.zero_and

/-! ### What happens to the flags -/

variable [Wiring σ]

/-- The flags and what they enable are the same. -/
structure SameFlags (via via' : Via) : Prop where
  flags : via'.flags = via.flags
  enabled : via'.enabled = via.enabled

theorem signal_flags (via : Via) (s : Signal) : SameFlags via (via.signal s) := by
  cases s <;> exact ⟨rfl, rfl⟩

theorem read_flags [Signalling σ] (via : Via) (register : UInt8) (wires : σ) :
    SameFlags (via.clear (readMask (register.toNat % 16))) (via.read register wires).2.1 := by
  refine via.read_keeps (fun via' s h => ?_) register ⟨rfl, rfl⟩ wires
  have hs := via'.signal_flags s
  exact ⟨hs.flags.trans h.flags, hs.enabled.trans h.enabled⟩

theorem writePeripheral_flags (via : Via) (v : UInt8) (wires : σ) :
    SameFlags via (via.writePeripheral v wires).1 := by
  rw [writePeripheral_fst]
  exact ⟨rfl, rfl⟩

theorem and_not_or (x v : UInt8) : x &&& ~~~(v ||| 0x80) = x &&& ~~~v &&& 0x7F := by
  apply UInt8.toBitVec_inj.1
  simp only [UInt8.toBitVec_and, UInt8.toBitVec_or, UInt8.toBitVec_not, BitVec.not_or, BitVec.and_assoc]
  rfl

theorem write_flags (via : Via) (register v : UInt8) (wires : σ) :
    (via.write register v wires).1.flags = via.flags &&& ~~~writeMask (register.toNat % 16) v := by
  have hperipheral := (via.writePeripheral_flags v wires).flags
  unfold write
  split
  rotate_right
  · have hnone : writeMask (register.toNat % 16) v = 0 := by
      unfold writeMask
      split <;> first | rfl | contradiction
    rw [hnone, and_not_zero]
    rfl
  all_goals
    next h =>
      rw [h]
      first
        | rfl
        | exact (and_not_zero _).symm
        | exact hperipheral.trans (and_not_zero _).symm
        | exact (and_not_or _ v).symm

/-- A write enables no interrupt of the top bit. -/
theorem write_enabled (via : Via) (register v : UInt8) (wires : σ) (h : via.enabled &&& 0x80 = 0) :
    (via.write register v wires).1.enabled &&& 0x80 = 0 := by
  have hperipheral := (via.writePeripheral_flags v wires).enabled
  have hmasked (x : UInt8) : x &&& 0x7F &&& 0x80 = 0 := by
    rw [UInt8.and_assoc]
    exact UInt8.and_zero
  unfold write
  split
  all_goals try exact h
  next => exact hperipheral ▸ h
  next =>
    unfold writeEnabled
    dsimp only
    split
    · exact or_and_eq_zero h (hmasked v)
    · exact hmasked _

theorem perform_flags [Signalling σ] (via : Via) (o : Operation σ) :
    (via.perform o).flags = via.flags &&& ~~~o.cleared ||| via.raised o := by
  cases o with
  | read register wires => exact (via.read_flags register wires).flags.trans UInt8.or_zero.symm
  | write register v wires => exact (via.write_flags register v wires).trans UInt8.or_zero.symm
  | signal s =>
    have hs := (via.signal_flags s).flags
    rw [Operation.cleared, raised, and_not_zero, UInt8.or_zero]
    exact hs
  | tick cycles =>
    rw [Operation.cleared, and_not_zero]
    exact via.tick_flags cycles
  | reset =>
    have hnone : ~~~(0xFF : UInt8) = 0 := rfl
    rw [Operation.cleared, raised, hnone, UInt8.and_zero, UInt8.or_zero]
    rfl

/-- A flag is set after an operation if the operation raises it, or if it was set and is not acknowledged. -/
theorem perform_has [Signalling σ] (via : Via) (o : Operation σ) (s : Source) :
    (via.perform o).has s = (via.raises s o || via.has s && !o.acknowledges s) := by
  rw [has, perform_flags, or_meets, and_not_flag, cleared_flag, raised_flag, Bool.or_comm]
  rfl

/-- Only what a tick can notice has a flag, and only the lower seven bits enable interrupts. -/
structure InUse (via : Via) : Prop where
  flags : via.flags &&& ~~~sourceFlags = 0
  enabled : via.enabled &&& 0x80 = 0

namespace InUse

theorem perform [Signalling σ] {via : Via} (h : InUse via) (o : Operation σ) : InUse (via.perform o) where
  flags := by
    have hraised : via.raised o &&& ~~~sourceFlags = 0 := by
      cases o with
      | tick cycles =>
        rw [raised]
        exact marks_and _
      | read | write | signal | reset =>
        rw [raised]
        exact UInt8.zero_and
    rw [perform_flags]
    exact or_and_eq_zero (and_and_eq_zero h.flags _) hraised
  enabled := by
    cases o with
    | read register wires =>
      have hsame := (via.read_flags register wires).enabled
      exact hsame ▸ h.enabled
    | write register v wires => exact via.write_enabled register v wires h.enabled
    | signal s =>
      have hsame := (via.signal_flags s).enabled
      exact hsame ▸ h.enabled
    | tick cycles => exact h.enabled
    | reset => exact UInt8.zero_and

end InUse

/-- The top bit sums the others up. -/
theorem flagRegister_top (via : Via) : (via.flagRegister &&& 0x80 != 0) = via.interrupting := by
  have hmasked : (via.flags &&& 0x7F &&& 0x80 != 0) = false := by
    rw [UInt8.and_assoc]
    exact bne_eq_false_iff_eq.2 UInt8.and_zero
  rw [flagRegister, or_meets, hmasked, Bool.false_or]
  cases via.interrupting <;> rfl

/-- However an adapter has been used, a flag stays set until it is acknowledged, only ticks set flags, and what a tick
tells of them is what a program reads. -/
theorem flags_last [Signalling σ] (os : List (Operation σ)) :
    let via := new.performAll os
    InUse via ∧
      (∀ (o : Operation σ) (s : Source),
        (via.perform o).has s = (via.raises s o || via.has s && !o.acknowledges s)) ∧
      (∀ o : Operation σ, (∃ cycles, o = .tick cycles) ∨ (via.perform o).flags &&& ~~~via.flags = 0) ∧
      (∀ cycles : UInt32, (via.tick cycles).1 = (via.tick cycles).2.interrupting) ∧
      ∀ wires : σ, ((via.read 0xD wires).1 &&& 0x80 != 0) = via.interrupting := by
  intro via
  have hnew : InUse new := ⟨UInt8.zero_and, UInt8.zero_and⟩
  have huse : InUse via := performAll_keeps (fun _ o h => h.perform o) hnew os
  refine ⟨huse, via.perform_has, fun o => ?_, fun _ => rfl, fun _ => via.flagRegister_top⟩
  have hkept : via.raised o = 0 → (via.perform o).flags &&& ~~~via.flags = 0 := by
    intro hraised
    rw [perform_flags, hraised, UInt8.or_zero]
    exact and_and_eq_zero (by simp) _
  cases o with
  | tick cycles => exact .inl ⟨cycles, rfl⟩
  | read | write | signal | reset => exact .inr (hkept rfl)

/-- Both timers have expired, and the first of them is acknowledged. -/
theorem flags_last_timers :
    let os : List (Operation Unit) := [.write 0x5 0 (), .write 0x9 0 (), .tick 1]
    let via := new.performAll os
    let acknowledged := via.perform (.read 0x4 () : Operation Unit)
    InUse via ∧ acknowledged.has .timer1 = false ∧ acknowledged.has .timer2 = true := by
  intro os via acknowledged
  obtain ⟨huse, hkept, -⟩ := flags_last os
  refine ⟨huse, ?_, ?_⟩
  · rw [hkept]
    decide
  · rw [hkept]
    decide

end Vic20.Via
