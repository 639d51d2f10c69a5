import Vic20.Proofs.Memory.Written

/-! Cartridges as they are dumped. The last bytes of a dump fill its window, and nothing else reads differently. What
is done to memory while a cartridge is in shows once it has been removed, as if it had never been in. -/

namespace Vic20

/-! ### Dumps -/

namespace Cartridge

/-- The first two bytes are taken for an address. -/
def Headed (bytes : List UInt8) (address : Option UInt16) : Prop :=
  address = none ∨ bytes.length = 4098 ∨ bytes.length = 8194

instance (bytes : List UInt8) (address : Option UInt16) : Decidable (Headed bytes address) :=
  inferInstanceAs (Decidable (_ ∨ _))

def bodyOf (bytes : List UInt8) (address : Option UInt16) : List UInt8 :=
  if Headed bytes address then bytes.drop 2 else bytes

def targetOf (bytes : List UInt8) (address : Option UInt16) : UInt16 :=
  if Headed bytes address then word (bytes.getD 0 0) (bytes.getD 1 0) else address.getD 0

/-- The bytes of a body that are used: 8K, or else 4K. -/
def usedOf (body : List UInt8) : Nat := if 8192 ≤ body.length then 8192 else 4096

/-- The first address of the window that a target stands for. -/
def windowOf (target : UInt16) : UInt16 :=
  if target = 0x2000 ∨ target = 0x4000 ∨ target = 0x6000 then target else 0xA000

theorem toNat_windowOf (target : UInt16) : (windowOf target).toNat = Place.start (slotOf target) := by
  unfold windowOf slotOf
  by_cases h₁ : target = 0x2000
  · subst h₁
    rfl
  by_cases h₂ : target = 0x4000
  · subst h₂
    rfl
  by_cases h₃ : target = 0x6000
  · subst h₃
    rfl
  rw [if_neg (by rintro (h | h | h) <;> contradiction), if_neg h₁, if_neg h₂, if_neg h₃]
  rfl

section Parsing

variable (bytes : List UInt8) (address : Option UInt16)

theorem split_cons (low high : UInt8) :
    split (low :: high :: bytes) address =
      some (targetOf (low :: high :: bytes) address, bodyOf (low :: high :: bytes) address) := by
  unfold targetOf bodyOf split
  cases address with
  | none => rfl
  | some a =>
    dsimp only
    by_cases hlength : (low :: high :: bytes).length = 4098 ∨ (low :: high :: bytes).length = 8194
    · have hheaded : Headed (low :: high :: bytes) (some a) := .inr hlength
      rw [if_pos hheaded, if_pos hheaded]
      exact if_pos hlength
    · have hheaded : ¬Headed (low :: high :: bytes) (some a) := by
        rintro (h | h)
        · cases h
        · exact hlength h
      rw [if_neg hheaded, if_neg hheaded]
      exact if_neg hlength

theorem parse_cons (low high : UInt8) :
    let body := bodyOf (low :: high :: bytes) address
    parse (low :: high :: bytes) address =
      if 4096 ≤ body.length then
        .ok ⟨targetOf (low :: high :: bytes) address, slotOf (targetOf (low :: high :: bytes) address),
          fill body.toArray (usedOf body)⟩
      else .error (.cartridgeTooShort (low :: high :: bytes).length) := by
  intro body
  have hsize : body.toArray.size = body.length := List.size_toArray
  unfold parse usedOf
  rw [split_cons]
  change (if 8192 ≤ body.toArray.size then _ else if 4096 ≤ body.toArray.size then _ else _) = _
  rw [hsize]
  by_cases h8K : 8192 ≤ body.length
  · rw [if_pos h8K, if_pos (by omega), if_pos h8K]
    rfl
  · rw [if_neg h8K, if_neg h8K]
    rfl

/-- What is made of a dump. -/
theorem parse_eq :
    parse bytes address =
      if 4096 ≤ (bodyOf bytes address).length then
        .ok ⟨targetOf bytes address, slotOf (targetOf bytes address),
          fill (bodyOf bytes address).toArray (usedOf (bodyOf bytes address))⟩
      else .error (.cartridgeTooShort bytes.length) := by
  rcases bytes with - | ⟨low, - | ⟨high, bytes⟩⟩
  · cases address <;> simp [parse, split, bodyOf, cartridgeSize, halfCartridgeSize]
  · cases address <;> simp [parse, split, bodyOf, Headed, cartridgeSize, halfCartridgeSize]
  · exact parse_cons bytes address low high

end Parsing

/-- The last bytes of a body fill a window, over and over. -/
theorem fill_read {body : List UInt8} (h : 4096 ≤ body.length) (i : Fin cartridgeSize) :
    body[body.length - usedOf body + i.val % usedOf body]? = some ((fill body.toArray (usedOf body)).read i) := by
  have hused : 0 < usedOf body ∧ usedOf body ≤ body.length := by
    unfold usedOf
    split <;> omega
  have hmod := Nat.mod_lt i.val hused.1
  have hindex : body.length - usedOf body + i.val % usedOf body < body.length := by omega
  rw [List.getElem?_eq_getElem hindex]
  simp [fill, Block.read, Memory.get_eq_getElem, Array.getD_eq_getD_getElem?, List.getElem?_eq_getElem hindex]

end Cartridge

/-! ### Windows -/

namespace Memory

variable (m : Memory)

theorem start_eq (slot : Fin 4) :
    Place.start slot = 0x2000 + 0x2000 * slot.val ∧ slot.val < 3 ∨ Place.start slot = 0xA000 ∧ slot.val = 3 := by
  revert slot
  decide

theorem start_inj {s t : Fin 4} {n : Nat} (hs : Place.start s ≤ n) (hs' : n < Place.start s + 0x2000)
    (ht : Place.start t ≤ n) (ht' : n < Place.start t + 0x2000) : s = t := by
  have := start_eq s
  have := start_eq t
  omega

/-- What is in a window has its place there. -/
theorem ofAddress_window {a : UInt16} {slot : Fin 4} (h : Place.start slot ≤ a.toNat)
    (h' : a.toNat < Place.start slot + 0x2000) :
    Place.ofAddress a = .window slot ⟨a.toNat - Place.start slot, Nat.sub_lt_left_of_lt_add h h'⟩ := by
  have hstart := start_eq slot
  have hplace := Place.at_ofAddress a
  generalize Place.ofAddress a = p at hplace
  cases hplace with
  | window slot' hs hs' =>
    obtain rfl := start_inj h h' hs hs'
    rfl
  | low | block3K | high | character | colour | basic | kernal | nothing => omega

/-- A cartridge shows in its window and nowhere else. -/
theorem read_insert_window (c : Cartridge) {a : UInt16} (h : Place.start c.slot ≤ a.toNat)
    (h' : a.toNat < Place.start c.slot + 0x2000) :
    (m.insert c).read a = c.image.read ⟨a.toNat - Place.start c.slot, by unfold cartridgeSize; omega⟩ := by
  have hslot : (m.insert c).cartridges.get c.slot = some c.image := by
    simp [insert, get_eq_getElem]
  simp only [read, readWindow, ofAddress_window h h', hslot, Option.getD_some]
  rfl

theorem read_insert_outside (c : Cartridge) {a : UInt16}
    (h : ¬(Place.start c.slot ≤ a.toNat ∧ a.toNat < Place.start c.slot + 0x2000)) :
    (m.insert c).read a = m.read a := by
  have hplace := Place.at_ofAddress a
  unfold read
  generalize Place.ofAddress a = p at hplace
  cases hplace with
  | window slot hs hs' =>
    have hne : c.slot.val ≠ slot.val := fun heq => h (Fin.ext heq ▸ ⟨hs, hs'⟩)
    have hother : (m.insert c).cartridges.get slot = m.cartridges.get slot := by
      simp only [insert, get_eq_getElem, Vector.getElem_set, if_neg hne]
    simp only [readWindow, hother]
    rfl
  | low | block3K | high | character | colour | basic | kernal | nothing => rfl

/-! ### Without cartridges -/

def Operation.isInsert : Operation → Bool
  | .insert _ => true
  | _ => false

theorem removeCartridges_write (a : UInt16) (v : UInt8) :
    (m.write a v).removeCartridges = m.removeCartridges.write a v := by
  unfold write
  split <;> rfl

theorem removeCartridges_written (ws : List (UInt16 × UInt8)) :
    (m.written ws).removeCartridges = m.removeCartridges.written ws := by
  induction ws with
  | nil => rfl
  | cons w earlier ih => rw [written, removeCartridges_write, ih, written]

theorem removeCartridges_setBlock (n : Nat) (fitted : Bool) :
    (m.setBlock n fitted).removeCartridges = m.removeCartridges.setBlock n fitted := by
  cases n <;> rfl

theorem removeCartridges_fit (n : Nat) (fitted : Bool) :
    (m.fit n fitted).removeCartridges = m.removeCartridges.fit n fitted := by
  have hfitted : m.removeCartridges.hasBlock n = m.hasBlock n := by cases n <;> rfl
  unfold fit
  rw [hfitted, ← removeCartridges_setBlock]
  split <;> rfl

theorem removeCartridges_apply (o : Operation) (h : o.isInsert = false) :
    (m.apply o).removeCartridges = m.removeCartridges.apply o := by
  cases o with
  | write a v => exact m.removeCartridges_write a v
  | fit n fitted => exact m.removeCartridges_fit n fitted
  | insert c => cases h
  | removeCartridges => rfl

/-- With the cartridges removed memory is as it would be without them. -/
theorem removeCartridges_through (history : List Operation) :
    (m.through history).removeCartridges =
      m.removeCartridges.through (history.filter fun o => !o.isInsert) := by
  induction history with
  | nil => rfl
  | cons o earlier ih =>
    cases hinsert : o.isInsert with
    | false =>
      rw [List.filter_cons_of_pos (by rw [hinsert]; rfl), through, through, removeCartridges_apply _ o hinsert, ih]
    | true =>
      rw [List.filter_cons_of_neg (by rw [hinsert]; decide), ← ih]
      cases o with
      | insert c => rfl
      | write | fit | removeCartridges => cases hinsert

end Memory
end Vic20
