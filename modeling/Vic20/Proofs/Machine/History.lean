import Vic20.Proofs.Machine.Loading
import Vic20.Proofs.Machine.Reset

/-! What has been done to memory, by what has been done to the machine. Blocks and cartridges are fitted and removed by
the host, and all else that reaches memory are writes. -/

namespace Vic20

/-- An access that does nothing to memory past the bus. -/
def Board.Access.OnBus {σ : Type} : Access σ → Prop
  | .memory _ => False
  | _ => True

namespace Machine

variable {σ : Type}

/-- An operation that does nothing to memory past the bus. -/
def Operation.OnBus : Operation σ → Prop
  | .board a => a.OnBus
  | _ => True

/-- What an operation does to memory itself, the newest first. -/
def Operation.media : Operation σ → List Memory.Operation
  | .setBlock block fitted => [.fit block fitted]
  | .setExpansion preset => (List.finRange 5).reverse.map fun i => .fit i.val (preset.blocks.get i)
  | .insert bytes address =>
    match Cartridge.parse bytes address with
    | .ok c => [.insert c]
    | .error _ => []
  | .removeCartridges => [.removeCartridges]
  | _ => []

def mediaOf : List (Operation σ) → List Memory.Operation
  | [] => []
  | o :: os => mediaOf os ++ o.media

/-- Writes keep a property of memory. -/
def KeptByWrites (P : Memory → Prop) : Prop := ∀ memory : Memory, P memory → ∀ a v, P (memory.write a v)

variable [Storage σ] {P : Memory → Prop} (hP : KeptByWrites P)

include hP

/-- Nothing on the board but a write reaches memory. -/
theorem keeps_memory : Board.Keeps fun b : Board σ => P b.memory where
  read {b} h address := by
    change P (b.read address).2.memory
    unfold Board.read
    split <;> exact h
  write {b} h address v := by
    change P (b.write address v).memory
    unfold Board.write
    dsimp only
    split
    · exact hP _ h address v
    all_goals exact h
  tickVia1 h _ := h
  tickVia2 h _ := h
  tickVic h _ := h
  tickDrive h _ := h
  syncSerial h := h
  takeJournal h := h

omit [Storage σ] in
theorem memory_written {memory : Memory} (h : P memory) (ws : List (UInt16 × UInt8)) : P (memory.written ws) := by
  induction ws with
  | nil => exact h
  | cons w earlier ih => exact hP _ ih w.1 w.2

variable {m : Machine σ} (h : P m.core.board.memory)

include h

theorem memory_writeAll (address : UInt16) (vs : List UInt8) : P (Bus.writeAll m address vs).core.board.memory := by
  induction vs generalizing m address with
  | nil => exact h
  | cons v vs ih => exact ih ((keeps_memory hP).write h address v) _

theorem memory_place (prg : Prg) (run : Bool) : P (m.place prg run).core.board.memory := by
  have hend := (prg.load m).setEnd_memory prg.payload.length
  have hwritten := memory_written hP (memory_writeAll hP h prg.address prg.payload)
    (pointing ((Program.peekWord (prg.load m) 0x002B).1 + UInt16.ofNat prg.payload.length))
  unfold place
  rw [hend]
  cases run <;> exact hwritten

theorem memory_reset : P m.reset.core.board.memory := by
  have hboard : P m.core.board.reset.memory := h
  have hread : P (Cpu.readWord m.core.board.reset Cpu.resetVector).2.memory := (keeps_memory hP).readWord hboard _
  exact hread

theorem memory_awaitReady (frames : Nat) : P (m.awaitReady frames).2.core.board.memory := by
  induction frames generalizing m with
  | zero => exact (keeps_memory hP).read h cursorRow
  | succ frames ih =>
    have hread : P (m.read cursorRow).2.core.board.memory := (keeps_memory hP).read h cursorRow
    unfold awaitReady
    dsimp only
    split
    · exact hread
    · exact ih ((keeps_memory hP).runFrame hread)

theorem memory_load (bytes : List UInt8) (restart run : Bool) :
    P (m.load bytes restart run).2.core.board.memory := by
  unfold load
  cases Prg.parse bytes with
  | error e => exact h
  | ok prg =>
    have hstart : P (if restart then m.boot else (.ok (), m)).2.core.board.memory := by
      cases restart with
      | true =>
        have hwrite : P (m.reset.write cursorRow 0).core.board.memory :=
          (keeps_memory hP).write (memory_reset hP h) cursorRow 0
        exact memory_awaitReady hP hwrite bootLimit
      | false => exact h
    dsimp only
    generalize (if restart then m.boot else (.ok (), m)) = r at hstart
    obtain ⟨⟨e⟩ | ⟨⟩, m⟩ := r
    · exact hstart
    · exact memory_place hP hstart prg run

omit hP h

omit [Storage σ] in
theorem setExpansion_through (m : Machine σ) (preset : Expansion) :
    (m.setExpansion preset).core.board.memory =
      m.core.board.memory.through ((List.finRange 5).reverse.map fun i => .fit i.val (preset.blocks.get i)) := by
  have hfold (is : List (Fin 5)) (m : Machine σ) :
      (is.foldl (fun m i => (m.setBlock i.val (preset.blocks.get i)).2) m).core.board.memory =
        m.core.board.memory.through (is.reverse.map fun i => .fit i.val (preset.blocks.get i)) := by
    induction is generalizing m with
    | nil => rfl
    | cons i is ih =>
      rw [List.foldl_cons, ih, setBlock_memory, List.reverse_cons, List.map_append, Memory.through_append]
      rfl
  have hnote : (m.note (.expansion preset)).core.board.memory = m.core.board.memory := rfl
  unfold setExpansion
  rw [hfold, hnote]

/-- Whatever is done to a machine, memory comes from what is done to it itself, with writes in between. -/
theorem perform_through (m : Machine σ) {o : Operation σ} (hbus : o.OnBus) :
    ∃ history, (m.perform o).2.core.board.memory = m.core.board.memory.through history ∧
      (history.filter fun o => !o.isWrite) = o.media := by
  have hP : KeptByWrites fun memory => ∃ ws, memory = m.core.board.memory.written ws :=
    fun _ ⟨ws, hmemory⟩ a v => ⟨(a, v) :: ws, congrArg (·.write a v) hmemory⟩
  have h : ∃ ws, m.core.board.memory = m.core.board.memory.written ws := ⟨[], rfl⟩
  have writes (hws : ∃ ws, (m.perform o).2.core.board.memory = m.core.board.memory.written ws)
      (hmedia : o.media = []) :
      ∃ history, (m.perform o).2.core.board.memory = m.core.board.memory.through history ∧
        (history.filter fun o => !o.isWrite) = o.media := by
    obtain ⟨ws, hws⟩ := hws
    exact ⟨_, hws.trans (Memory.written_through _ ws), (Memory.filter_writes ws).trans hmedia.symm⟩
  cases o with
  | setBlock block fitted => exact ⟨[.fit block fitted], m.setBlock_memory block fitted, rfl⟩
  | setExpansion preset =>
    simp only [Machine.perform]
    exact ⟨_, m.setExpansion_through preset, by simp [Operation.media, Memory.Operation.isWrite]⟩
  | insert bytes address =>
    simp only [Machine.perform, Machine.insert, Operation.media]
    cases Cartridge.parse bytes address with
    | error e => exact ⟨[], rfl, rfl⟩
    | ok c => exact ⟨[.insert c], rfl, rfl⟩
  | removeCartridges => exact ⟨[.removeCartridges], rfl, rfl⟩
  | runFrame => exact writes ((keeps_memory hP).runFrame h) rfl
  | reset => exact writes (memory_reset hP h) rfl
  | read address => exact writes ((keeps_memory hP).read h address) rfl
  | write address v => exact writes ((keeps_memory hP).write h address v) rfl
  | load bytes restart run => exact writes (memory_load hP h bytes restart run) rfl
  | board a =>
    cases a with
    | memory f => cases hbus
    | _ => exact writes h rfl
  | _ => exact writes h rfl

theorem performAll_through (m : Machine σ) {os : List (Operation σ)} (hbus : ∀ o ∈ os, o.OnBus) :
    ∃ history, (m.performAll os).2.core.board.memory = m.core.board.memory.through history ∧
      (history.filter fun o => !o.isWrite) = mediaOf os := by
  induction os generalizing m with
  | nil => exact ⟨[], rfl, rfl⟩
  | cons o os ih =>
    obtain ⟨first, hfirst, hmedia⟩ := m.perform_through (hbus o List.mem_cons_self)
    obtain ⟨rest, hrest, hmedias⟩ := ih (m.perform o).2 fun o ho => hbus o (List.mem_cons_of_mem _ ho)
    refine ⟨rest ++ first, ?_, ?_⟩
    · rw [Memory.through_append, ← hfirst]
      exact hrest
    · rw [List.filter_append, hmedia, hmedias]
      rfl

end Machine
end Vic20
