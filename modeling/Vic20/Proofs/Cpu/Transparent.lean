import Mathlib.Logic.Function.Iterate
import Vic20.Bus.Flat
import Vic20.Proofs.Cpu.Plain
import Vic20.Proofs.Memory.Places
import Vic20.Proofs.Word

/-! Interrupts whose handler returns at once. Each pushes three bytes and pulls them again, so that nested ones
leave the processor as it was, wherever in its page the stack pointer stands, as long as the stack does not run
into itself. -/

namespace Vic20

namespace Flat

variable (ram : Flat) (a b : UInt16) (v : UInt8)

theorem get_put : (ram.put a v).get b = if a = b then v else ram.get b := by
  have hfin : (⟨a.toNat, a.toNat_lt⟩ : Fin 0x10000) = ⟨b.toNat, b.toNat_lt⟩ ↔ a = b := by
    rw [Fin.mk.injEq, UInt16.toNat_inj]
  simp only [get, put, Memory.read_write_block, hfin]

theorem get_empty : Flat.empty.get a = 0 := by
  simp only [get, empty, Block.zero, Block.filled, Block.read, Memory.get_eq_getElem, Vector.getElem_replicate]

/-- The word at an address. -/
def getWord (address : UInt16) : UInt16 := word (ram.get address) (ram.get (address + 1))

end Flat

namespace Cpu

open Registers

/-! ### The stack page -/

theorem highByte_stackAddress (s : UInt8) : highByte (stackAddress s) = 1 := by
  obtain ⟨⟨s⟩⟩ := s
  revert s
  decide +kernel

theorem lowByte_stackAddress (s : UInt8) : lowByte (stackAddress s) = s := by
  obtain ⟨⟨s⟩⟩ := s
  revert s
  decide +kernel

theorem stackAddress_inj {s t : UInt8} : stackAddress s = stackAddress t ↔ s = t :=
  ⟨fun h => by rw [← lowByte_stackAddress s, h, lowByte_stackAddress], congrArg stackAddress⟩

/-- An address is none of the first `n` that are pushed to. -/
def Spared (s : UInt8) (n : Nat) (address : UInt16) : Prop :=
  ∀ k < n, address ≠ stackAddress (s - UInt8.ofNat k)

theorem spared_of_page {address : UInt16} (h : highByte address ≠ 1) (s : UInt8) (n : Nat) :
    Spared s n address := by
  rintro k - rfl
  exact h (highByte_stackAddress _)

/-- What is above the stack pointer is spared, as long as the stack does not come round to it. -/
theorem spared_above (s : UInt8) {n above : Nat} (h : n + above ≤ 256) (hpos : 0 < above) :
    Spared s n (stackAddress (s + UInt8.ofNat above)) := by
  intro k hk heq
  have hs := congrArg UInt8.toNat (stackAddress_inj.mp heq)
  have hlt := s.toNat_lt
  simp only [UInt8.toNat_add, UInt8.toNat_sub, UInt8.toNat_ofNat'] at hs
  omega

/-! ### One interrupt -/

/-- What an interrupt has pushed, from the stack pointer downwards. -/
structure Pushed (r : Registers) (ram : Flat) : Prop where
  high : ram.get (stackAddress r.s) = highByte r.pc
  low : ram.get (stackAddress (r.s - 1)) = lowByte r.pc
  status : ram.get (stackAddress (r.s - 2)) = r.p.pushedByInterrupt

/-- A vector to a handler that only returns. None of its bytes are in the stack page. -/
structure Returns (ram : Flat) (vector : UInt16) : Prop where
  apart : highByte vector ≠ 1 ∧ highByte (vector + 1) ≠ 1
  outside : highByte (ram.getWord vector) ≠ 1
  rti : ram.get (ram.getWord vector) = 0x40

/-- Memory as it was, but for the first `n` bytes below the stack pointer. -/
def Kept (s : UInt8) (n : Nat) (before after : Flat) : Prop :=
  ∀ address, Spared s n address → after.get address = before.get address

variable {cpu : Cpu} {ram ram' : Flat} {vector : UInt16} {s : UInt8} {n : Nat}

theorem Kept.getWord (h : Kept s n ram ram') (hv : highByte vector ≠ 1 ∧ highByte (vector + 1) ≠ 1) :
    ram'.getWord vector = ram.getWord vector := by
  rw [Flat.getWord, h _ (spared_of_page hv.1 s n), h _ (spared_of_page hv.2 s n), Flat.getWord]

theorem Returns.kept (h : Returns ram vector) (hkept : Kept s n ram ram') : Returns ram' vector := by
  have hword := hkept.getWord h.apart
  refine ⟨h.apart, ?_, ?_⟩
  · rw [hword]
    exact h.outside
  · rw [hword, hkept _ (spared_of_page h.outside s n)]
    exact h.rti

/-- Memory with what an interrupt pushes. -/
def withPushed (r : Registers) (ram : Flat) : Flat :=
  ((ram.put (stackAddress r.s) (highByte r.pc)).put (stackAddress (r.s - 1)) (lowByte r.pc)).put
    (stackAddress (r.s - 2)) r.p.pushedByInterrupt

theorem kept_withPushed (r : Registers) (ram : Flat) : Kept r.s 3 ram (withPushed r ram) := by
  intro address h
  have h0 : stackAddress r.s ≠ address := by simpa using (h 0 (by decide)).symm
  have h1 : stackAddress (r.s - 1) ≠ address := (h 1 (by decide)).symm
  have h2 : stackAddress (r.s - 2) ≠ address := (h 2 (by decide)).symm
  simp only [withPushed, Flat.get_put, h0, h1, h2, if_false]

theorem pushed_withPushed (r : Registers) (ram : Flat) : Pushed r (withPushed r ram) := by
  have hne : ∀ s : UInt8, s - 1 ≠ s ∧ s - 2 ≠ s ∧ s - 2 ≠ s - 1 := by
    rintro ⟨⟨s⟩⟩
    revert s
    decide +kernel
  obtain ⟨h10, h20, h21⟩ := hne r.s
  constructor <;> simp only [withPushed, Flat.get_put, stackAddress_inj, h10, h20, h21, if_true, if_false]

/-- The registers in a handler. -/
def handling (r : Registers) (handler : UInt16) : Registers :=
  { r with s := r.s - 3, pc := handler, p := r.p.assign Status.interruptDisable true }

theorem interrupt_eq (h : Returns ram vector) :
    (cpu.interrupt ram vector).2 =
      ({ cpu with registers := handling cpu.registers (ram.getWord vector), cycles := cpu.cycles + 7 },
        withPushed cpu.registers ram) := by
  have hs : cpu.registers.s - 1 - 1 = cpu.registers.s - 2 := by grind
  have hs' : cpu.registers.s - 2 - 1 = cpu.registers.s - 3 := by grind
  have hword := (kept_withPushed cpu.registers ram).getWord h.apart
  have hram : (enterHandler cpu.registers ram cpu.registers.pc cpu.registers.p.pushedByInterrupt vector).2 =
      withPushed cpu.registers ram := by
    rw [withPushed, ← hs]
    rfl
  have hregisters :
      (enterHandler cpu.registers ram cpu.registers.pc cpu.registers.p.pushedByInterrupt vector).1 =
        handling cpu.registers (ram.getWord vector) := by
    rw [← hword, handling, ← hs', withPushed, ← hs]
    rfl
  unfold interrupt
  dsimp only
  rw [hram, hregisters]

/-- An RTI takes everything back that an interrupt pushed. -/
theorem step_returns {r : Registers} {handler : UInt16} {p : Status} (hplain : r.p.Plain) (hpushed : Pushed r ram)
    (hin : cpu.registers = { r with s := r.s - 3, pc := handler, p }) (hrti : ram.get handler = 0x40) :
    (cpu.step ram).2 = ({ cpu with registers := r, cycles := cpu.cycles + 6 }, ram) := by
  have hs : r.s - 3 + 1 = r.s - 2 := by grind
  have hs' : r.s - 2 + 1 = r.s - 1 := by grind
  have hs'' : r.s - 1 + 1 = r.s := by grind
  have hdecode : decode (Bus.read ram cpu.registers.pc).1 = some ⟨.control .rti, .implied, 6⟩ := by
    have hopcode : (Bus.read ram cpu.registers.pc).1 = 0x40 := by rw [hin]; exact hrti
    rw [hopcode]
    rfl
  have hrun : ControlOp.rti.run .none (fetched cpu.registers) ram = (r, ram) := by
    have hpulled := hplain.pulled_pushedByInterrupt
    rw [hin]
    simp only [ControlOp.run, fetched, pull, pullWord, Registers.pulled, Bus.read, hs, hs', hs'', hpushed.status,
      hpushed.low, hpushed.high, word_bytes, hpulled]
  rw [step_some_eq hdecode]
  simp only [Instruction.run, resolve, Op.run, hrun, show (Bus.read ram cpu.registers.pc).2 = ram from rfl]
  rfl

/-! ### Nested interrupts -/

/-- As before, but for the time passed in `n` interrupts and what they left below the stack pointer. -/
structure Restored (before after : Cpu × Flat) (n : Nat) : Prop where
  cpu : after.1 = { before.1 with cycles := before.1.cycles + 13 * n }
  memory : Kept before.1.registers.s (3 * n) before.2 after.2

def stepped (m : Cpu × Flat) : Cpu × Flat := (m.1.step m.2).2

def afterNmi (m : Cpu × Flat) : Cpu × Flat := (m.1.nmi m.2).2

theorem Restored.refl (m : Cpu × Flat) : Restored m m 0 := ⟨rfl, fun _ _ => rfl⟩

/-- The cells below a stack pointer, and three above. -/
theorem Spared.below {address : UInt16} (h : Spared s (n + 3) address) : Spared (s - 3) n address := by
  intro k hk
  have hcell : s - 3 - UInt8.ofNat k = s - UInt8.ofNat (k + 3) := by
    rw [UInt8.ofNat_add]
    grind
  rw [hcell]
  exact h (k + 3) (by omega)

theorem Spared.mono {address : UInt16} {more : Nat} (h : Spared s more address) (hle : n ≤ more) :
    Spared s n address := fun k hk => h k (by omega)

/-- Whatever nests in a handler, the return undoes the interrupt, unless the stack has come round. -/
theorem Restored.around (hplain : cpu.registers.p.Plain) (hv : Returns ram vector) {after : Cpu × Flat}
    (h : Restored (cpu.interrupt ram vector).2 after n) (hn : 3 * n + 3 ≤ 256) :
    Restored (cpu, ram) (stepped after) (n + 1) := by
  rw [interrupt_eq hv] at h
  obtain ⟨inner, ram'⟩ := after
  obtain ⟨hcpu, hkept⟩ := h
  dsimp only at hcpu hkept
  subst hcpu
  have hbelow : (handling cpu.registers (ram.getWord vector)).s = cpu.registers.s - 3 := rfl
  rw [hbelow] at hkept
  have habove (k : UInt8) (above : Nat) (hk : k = cpu.registers.s - 3 + UInt8.ofNat above)
      (hle : 3 * n + above ≤ 256) (hpos : 0 < above) :
      ram'.get (stackAddress k) = (withPushed cpu.registers ram).get (stackAddress k) :=
    hkept _ (hk ▸ spared_above _ hle hpos)
  have hpushed := pushed_withPushed cpu.registers ram
  have hpushed' : Pushed cpu.registers ram' := by
    refine ⟨?_, ?_, ?_⟩
    · rw [habove _ 3 (by change _ = _ - 3 + 3; grind) (by omega) (by omega), hpushed.high]
    · rw [habove _ 2 (by change _ = _ - 3 + 2; grind) (by omega) (by omega), hpushed.low]
    · rw [habove _ 1 (by change _ = _ - 3 + 1; grind) (by omega) (by omega), hpushed.status]
  have hrti : ram'.get (ram.getWord vector) = 0x40 := by
    rw [hkept _ (spared_of_page hv.outside _ _), kept_withPushed _ _ _ (spared_of_page hv.outside _ _)]
    exact hv.rti
  rw [stepped, step_returns hplain hpushed' rfl hrti]
  constructor
  · simp only [Cpu.mk.injEq, true_and, and_true]
    omega
  · intro address hspared
    rw [hkept _ (Spared.below hspared), kept_withPushed _ _ _ (hspared.mono (by omega))]

/-- Interrupts nest to any depth for which the stack has room. -/
theorem restored_nested (n : Nat) (hn : 3 * n ≤ 256) (hplain : cpu.registers.p.Plain)
    (hv : Returns ram nmiVector) : Restored (cpu, ram) (stepped^[n] (afterNmi^[n] (cpu, ram))) n := by
  induction n generalizing cpu ram with
  | zero => exact .refl _
  | succ n ih =>
    rw [Function.iterate_succ_apply' stepped, Function.iterate_succ_apply afterNmi]
    have hplain' : (afterNmi (cpu, ram)).1.registers.p.Plain := plain_interrupt hplain ram nmiVector
    have hv' : Returns (afterNmi (cpu, ram)).2 nmiVector := by
      rw [show afterNmi (cpu, ram) = _ from interrupt_eq hv]
      exact hv.kept (kept_withPushed cpu.registers ram)
    exact (ih (by omega) hplain' hv').around hplain hv hn

/-- The status never has the break or the unused bit. So interrupts leave nothing behind but the time that they
take and the bytes below the stack pointer, whether up to 85 nest that cannot be masked or there is one that is
not masked. -/
theorem interrupts_transparent (h : Reachable cpu) :
    cpu.registers.p.bits &&& (Status.brk ||| Status.unused) = 0 ∧
    (∀ ram : Flat, highByte (ram.getWord nmiVector) ≠ 1 → ram.get (ram.getWord nmiVector) = 0x40 → ∀ n ≤ 85,
      let after := stepped^[n] (afterNmi^[n] (cpu, ram))
      after.1 = { cpu with cycles := cpu.cycles + 13 * n } ∧
        ∀ address, (∀ k < 3 * n, address ≠ stackAddress (cpu.registers.s - UInt8.ofNat k)) →
          after.2.get address = ram.get address) ∧
    (cpu.registers.flag Status.interruptDisable = false → ∀ ram : Flat,
      highByte (ram.getWord irqVector) ≠ 1 → ram.get (ram.getWord irqVector) = 0x40 →
      let after := stepped (cpu.irq ram).2
      after.1 = { cpu with cycles := cpu.cycles + 13 } ∧
        ∀ address, (∀ k < 3, address ≠ stackAddress (cpu.registers.s - UInt8.ofNat k)) →
          after.2.get address = ram.get address) := by
  refine ⟨h.plain, ?_, ?_⟩
  · intro ram houtside hrti n hn
    have hrestored := restored_nested n (by omega) h.plain ⟨by decide, houtside, hrti⟩
    exact ⟨hrestored.cpu, hrestored.memory⟩
  · intro hclear ram houtside hrti
    have hirq : cpu.irq ram = cpu.interrupt ram irqVector := by
      rw [irq, if_neg (Bool.eq_false_iff.mp hclear)]
    have hrestored := (Restored.refl (cpu.interrupt ram irqVector).2).around h.plain
      ⟨by decide, houtside, hrti⟩ (by omega)
    rw [hirq]
    exact ⟨hrestored.cpu, hrestored.memory⟩

/-- A CLI to begin with, and both vectors to an RTI. -/
def returning : Flat := (((Flat.empty.put 0 0x58).put 0x0200 0x40).put 0xFFFB 0x02).put 0xFFFF 0x02

theorem get_returning (address : UInt16) :
    returning.get address =
      if 0xFFFF = address then 0x02 else if 0xFFFB = address then 0x02 else if 0x0200 = address then 0x40 else
        if 0 = address then 0x58 else 0 := by
  simp only [returning, Flat.get_put, Flat.get_empty]

/-- With 85 interrupts the stack goes round its page. -/
theorem interrupts_transparent_returning :
    let cpu := (Cpu.new.step returning).2.1
    (stepped^[85] (afterNmi^[85] (cpu, returning))).1 = { cpu with cycles := cpu.cycles + 1105 } ∧
      (stepped (cpu.irq returning).2).1 = { cpu with cycles := cpu.cycles + 13 } := by
  intro cpu
  obtain ⟨-, hnmi, hirq⟩ := interrupts_transparent (.step returning .new : Reachable cpu)
  have hclear : cpu.registers.flag Status.interruptDisable = false := by
    have hopcode : (Bus.read returning Cpu.new.registers.pc).1 = 0x58 := get_returning 0
    have hdecode : decode (Bus.read returning Cpu.new.registers.pc).1 = some ⟨.register .cli, .implied, 2⟩ := by
      rw [hopcode]
      rfl
    rw [show cpu = (Cpu.new.step returning).2.1 from rfl, step_some_eq hdecode]
    rfl
  have hword (vector : UInt16) (h : vector = nmiVector ∨ vector = irqVector) :
      returning.getWord vector = 0x0200 := by
    obtain rfl | rfl := h <;> rw [Flat.getWord, get_returning, get_returning] <;> decide
  have hrti : returning.get 0x0200 = 0x40 := get_returning 0x0200
  refine ⟨(hnmi returning ?_ ?_ 85 (Nat.le_refl 85)).1, (hirq hclear returning ?_ ?_).1⟩
  · rw [hword _ (.inl rfl)]
    decide
  · rw [hword _ (.inl rfl), hrti]
  · rw [hword _ (.inr rfl)]
    decide
  · rw [hword _ (.inr rfl), hrti]

end Cpu
end Vic20
