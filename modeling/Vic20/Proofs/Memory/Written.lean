import Mathlib.Tactic.Common
import Vic20.Proofs.Memory.History

/-! Several writes in a row. What an address reads afterwards is decided by the last write to it, and by nothing that
has been written to other addresses. -/

namespace Vic20.Memory

variable (m : Memory)

/-- Memory after writes, of which the newest is first. -/
def written : List (UInt16 × UInt8) → Memory
  | [] => m
  | (a, v) :: earlier => (written earlier).write a v

theorem written_append (later earlier : List (UInt16 × UInt8)) :
    m.written (later ++ earlier) = (m.written earlier).written later := by
  induction later with
  | nil => rfl
  | cons w later ih => exact congrArg (·.write w.1 w.2) ih

theorem written_others (ws : List (UInt16 × UInt8)) :
    (m.written ws).cartridges = m.cartridges ∧ (m.written ws).roms = m.roms := by
  induction ws with
  | nil => exact ⟨rfl, rfl⟩
  | cons w earlier ih => exact ⟨(write_cartridges _ _ _).trans ih.1, (write_roms _ _ _).trans ih.2⟩

/-- A place holds the byte last written to its address, if it is in RAM. -/
theorem stored_written (ws : List (UInt16 × UInt8)) (a : UInt16) :
    (m.written ws).stored (Place.ofAddress a) =
      (m.stored (Place.ofAddress a)).map fun old => (ws.lookup a).getD old := by
  induction ws with
  | nil => simp [written]
  | cons w earlier ih =>
    obtain ⟨b, v⟩ := w
    rw [written, List.lookup_cons]
    by_cases h : a = b
    · subst h
      rw [stored_write, if_pos rfl, ih, Option.map_map, beq_self_eq_true]
      rfl
    · rw [stored_write_of_ne h, ih, beq_false_of_ne h]

/-- An address reads as if the last write to it had been made alone. -/
theorem read_written (ws : List (UInt16 × UInt8)) (a : UInt16) :
    (m.written ws).read a =
      match ws.lookup a with
      | some v => (m.write a v).read a
      | none => m.read a := by
  have hstored := m.stored_written ws a
  obtain ⟨hcartridges, hroms⟩ := m.written_others ws
  cases hlast : ws.lookup a with
  | none =>
    rw [hlast] at hstored
    exact read_congr (hstored.trans Option.map_id') hcartridges hroms
  | some v =>
    rw [hlast] at hstored
    refine read_congr ?_ (hcartridges.trans (write_cartridges m a v).symm) (hroms.trans (write_roms m a v).symm)
    rw [hstored, stored_write, if_pos rfl]
    rfl

/-! ### Where writes show -/

theorem read_write_low {a : UInt16} (h : a < 0x0400) (v : UInt8) : (m.write a v).read a = v := by
  have hplace : Place.ofAddress a = .low ⟨a.toNat, h⟩ := dif_pos h
  simp only [read, write, hplace, read_write_block, if_true]

/-! ### Where writes do not show -/

/-- There is no RAM at the address, or a cartridge hides it. -/
def Fixed (a : UInt16) : Prop :=
  m.stored (Place.ofAddress a) = none ∨
    ∃ slot i, Place.ofAddress a = .window slot i ∧ (m.cartridges.get slot).isSome

theorem read_write_fixed {a : UInt16} (h : m.Fixed a) (v : UInt8) : (m.write a v).read a = m.read a := by
  rcases h with h | ⟨slot, i, hplace, hcartridge⟩
  · refine read_congr ?_ (write_cartridges m a v) (write_roms m a v)
    rw [stored_write, if_pos rfl, h]
    rfl
  · obtain ⟨image, himage⟩ := Option.isSome_iff_exists.1 hcartridge
    simp only [read, readWindow, hplace, write_cartridges, himage]

theorem read_written_fixed {a : UInt16} (h : m.Fixed a) (ws : List (UInt16 × UInt8)) :
    (m.written ws).read a = m.read a := by
  rw [read_written]
  cases ws.lookup a with
  | none => rfl
  | some v => exact m.read_write_fixed h v

/-! ### Bytes at consecutive addresses -/

/-- The writes that put bytes at consecutive addresses. -/
def placing (address : UInt16) : List UInt8 → List (UInt16 × UInt8)
  | [] => []
  | v :: vs => placing (address + 1) vs ++ [(address, v)]

theorem offset_succ {a address : UInt16} (h : a ≠ address) :
    (a - address).toNat = (a - (address + 1)).toNat + 1 := by
  have hne : a.toNat ≠ address.toNat := fun heq => h (UInt16.toNat_inj.1 heq)
  have ha := a.toNat_lt
  have haddress := address.toNat_lt
  rw [UInt16.toNat_sub, UInt16.toNat_sub, UInt16.toNat_add, show UInt16.toNat 1 = 1 from rfl]
  omega

theorem offset_pred (a : UInt16) : (a - (a + 1)).toNat = 0xFFFF := by
  have ha := a.toNat_lt
  rw [UInt16.toNat_sub, UInt16.toNat_add, show UInt16.toNat 1 = 1 from rfl]
  omega

/-- The byte that goes to an address. As there are no more bytes than addresses, it is the only one. -/
theorem lookup_placing (address a : UInt16) {vs : List UInt8} (h : vs.length ≤ 0x10000) :
    (placing address vs).lookup a = vs[(a - address).toNat]? := by
  induction vs generalizing address with
  | nil => rfl
  | cons v vs ih =>
    have hvs : vs.length < 0x10000 := h
    rw [placing, List.lookup_append, ih (address + 1) (Nat.le_of_lt hvs)]
    by_cases ha : a = address
    · subst ha
      rw [offset_pred, List.getElem?_eq_none (by omega)]
      simp
    · rw [offset_succ ha, List.getElem?_cons_succ]
      simp [List.lookup_cons, beq_false_of_ne ha]

/-! ### Writes as a history -/

/-- Memory after more has been done to it, the newest first. -/
def through : List Operation → Memory
  | [] => m
  | o :: earlier => (through earlier).apply o

theorem through_append (later earlier : List Operation) :
    m.through (later ++ earlier) = (m.through earlier).through later := by
  induction later with
  | nil => rfl
  | cons o later ih => exact congrArg (·.apply o) ih

def Operation.isWrite : Operation → Bool
  | .write .. => true
  | _ => false

/-- The writes as a history. -/
theorem written_through (ws : List (UInt16 × UInt8)) :
    m.written ws = m.through (ws.map fun w => .write w.1 w.2) := by
  induction ws with
  | nil => rfl
  | cons w earlier ih => exact congrArg (·.write w.1 w.2) ih

theorem filter_writes (ws : List (UInt16 × UInt8)) :
    ((ws.map fun w => Operation.write w.1 w.2).filter fun o => !o.isWrite) = [] := by
  refine List.filter_eq_nil_iff.2 fun o ho => ?_
  obtain ⟨w, -, rfl⟩ := List.mem_map.1 ho
  exact Bool.false_ne_true

end Vic20.Memory
