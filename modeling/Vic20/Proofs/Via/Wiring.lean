import Vic20.Via.Access

/-! Wirings from the adapter's side. An adapter works the same with two wirings that drive its ports the same, so it
does not notice that somebody listens to what its wiring is told. -/

namespace Vic20.Via

variable {σ τ : Type} [Wiring σ] [Wiring τ]

/-- A map of what is connected to an adapter, which the adapter cannot notice. -/
structure Wiring.Hom (φ : σ → τ) : Prop where
  portIn (wires : σ) (via : Via) (pin : Pin) :
    Wiring.portIn (φ wires) via pin = ((Wiring.portIn wires via pin).1, φ (Wiring.portIn wires via pin).2)
  portOut (wires : σ) (via : Via) (pin : Pin) :
    Wiring.portOut (φ wires) via pin = φ (Wiring.portOut wires via pin)

namespace Wiring.Hom

variable {φ : σ → τ} (hφ : Wiring.Hom φ) (wires : σ) (via : Via)

include hφ

theorem read (register : UInt8) :
    via.read register (φ wires) =
      ((via.read register wires).1, (via.read register wires).2.1, φ (via.read register wires).2.2) := by
  unfold Via.read
  split <;> simp only [readA, readB, hφ.portIn]

theorem peripheral (v : UInt8) :
    via.writePeripheral v (φ wires) =
      ((via.writePeripheral v wires).1, φ (via.writePeripheral v wires).2) := by
  unfold writePeripheral
  cases forcedLevel (v >>> 1) <;> cases forcedLevel (v >>> 5) <;> simp only [hφ.portOut]

theorem write (register v : UInt8) :
    via.write register v (φ wires) = ((via.write register v wires).1, φ (via.write register v wires).2) := by
  unfold Via.write
  split <;> simp only [writeA, hφ.portOut, hφ.peripheral]

end Wiring.Hom

/-- A wiring, and what it has been told: the pins, and the adapter that it found there. -/
structure Overheard (σ : Type) where
  wires : σ
  told : List (Pin × Via) := []

namespace Overheard

/-- A wiring that has not been told anything yet. -/
def of (wires : σ) : Overheard σ := { wires }

instance : Wiring (Overheard σ) where
  portIn o via pin :=
    let (via, wires) := Wiring.portIn o.wires via pin
    (via, { o with wires })
  portOut o via pin := ⟨Wiring.portOut o.wires via pin, o.told ++ [(pin, via)]⟩

theorem wires_hom : Wiring.Hom (wires : Overheard σ → σ) where
  portIn _ _ _ := rfl
  portOut _ _ _ := rfl

end Overheard
end Vic20.Via
