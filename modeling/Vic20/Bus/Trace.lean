import Vic20.Bus.Basic

/-! A bus that records every access made through it. -/

namespace Vic20

inductive Bus.Access where
  | read (address : UInt16) (v : UInt8)
  | write (address : UInt16) (v : UInt8)
  deriving DecidableEq, Repr

/-- `accesses` holds the accesses in the order in which they were made. -/
structure Traced (σ : Type) where
  bus : σ
  accesses : Array Bus.Access := #[]

namespace Traced

variable {σ : Type} [Bus σ]

instance : Bus (Traced σ) where
  read t address :=
    let (v, bus) := Bus.read t.bus address
    (v, ⟨bus, t.accesses.push (.read address v)⟩)
  write t address v :=
    ⟨Bus.write t.bus address v, t.accesses.push (.write address v)⟩

end Traced
end Vic20
