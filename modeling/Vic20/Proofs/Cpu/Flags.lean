import Vic20.Cpu.Alu

/-! Flags set one after the other. To set a flag again undoes what was done to it before, flags of different masks
do not meet, and a result sets negative and zero and no others. -/

namespace Vic20.Cpu

namespace Status

variable {p : Status} {mask other : UInt8}

/-- Disjoint masks have no bit in common. -/
theorem bit_of_disjoint (h : mask &&& other = 0) (i : Nat) (hi : i < 8) (hbit : mask.toBitVec[i] = true) :
    other.toBitVec[i] = false := by
  have hand : (mask &&& other).toBitVec[i] = (0 : UInt8).toBitVec[i] := by rw [h]
  simpa [hbit] using hand

theorem test_assign (hmask : mask ≠ 0) (on : Bool) : (p.assign mask on).test mask = on := by
  cases on with
  | true =>
    have hself : (p.bits ||| mask) &&& mask = mask := by
      apply UInt8.toBitVec_inj.1
      ext i
      simp only [UInt8.toBitVec_and, UInt8.toBitVec_or, BitVec.getElem_and, BitVec.getElem_or]
      cases mask.toBitVec[i] <;> simp
    simpa [test, assign, hself] using hmask
  | false =>
    have hself : p.bits &&& ~~~mask &&& mask = 0 := by
      apply UInt8.toBitVec_inj.1
      ext i
      simp
    simp [test, assign, hself]

theorem test_assign_of_disjoint (h : mask &&& other = 0) (on : Bool) :
    (p.assign mask on).test other = p.test other := by
  have hsame : (p.assign mask on).bits &&& other = p.bits &&& other := by
    apply UInt8.toBitVec_inj.1
    ext i hi
    have hbit := bit_of_disjoint h i hi
    cases on <;> cases hmask : mask.toBitVec[i] <;> simp_all [assign]
  rw [test, test, hsame]

theorem assign_assign (on again : Bool) : (p.assign mask on).assign mask again = p.assign mask again := by
  have hsame : ((p.assign mask on).assign mask again).bits = (p.assign mask again).bits := by
    apply UInt8.toBitVec_inj.1
    ext i
    cases on <;> cases again <;> cases hmask : mask.toBitVec[i] <;> simp [assign, hmask]
  exact congrArg Status.mk hsame

theorem assign_comm (h : mask &&& other = 0) (on on' : Bool) :
    (p.assign mask on).assign other on' = (p.assign other on').assign mask on := by
  have hsame : ((p.assign mask on).assign other on').bits = ((p.assign other on').assign mask on).bits := by
    apply UInt8.toBitVec_inj.1
    ext i hi
    have hbit := bit_of_disjoint h i hi
    cases on <;> cases on' <;> cases hmask : mask.toBitVec[i] <;> simp_all [assign]
  exact congrArg Status.mk hsame

theorem ofResult_assign (hneg : negative &&& mask = 0) (hzero : zero &&& mask = 0) (on : Bool) (v : UInt8) :
    (p.assign mask on).ofResult v = (p.ofResult v).assign mask on := by
  rw [ofResult, ofResult, assign_comm hzero, assign_comm hneg]

/-- Only the last result is seen. -/
theorem ofResult_ofResult (u v : UInt8) : (p.ofResult u).ofResult v = p.ofResult v := by
  have hdisjoint : zero &&& negative = 0 := rfl
  simp only [ofResult]
  rw [assign_comm hdisjoint, assign_assign, assign_assign]

theorem test_ofResult (hneg : negative &&& mask = 0) (hzero : zero &&& mask = 0) (v : UInt8) :
    (p.ofResult v).test mask = p.test mask := by
  rw [ofResult, test_assign_of_disjoint hzero, test_assign_of_disjoint hneg]

theorem negative_ofResult (v : UInt8) : (p.ofResult v).test negative = (v &&& 0x80 != 0) := by
  rw [ofResult, test_assign_of_disjoint rfl, test_assign (by decide)]

end Status

namespace Registers

variable (r : Registers) (v w : UInt8) {mask : UInt8}

theorem flag_result (hneg : Status.negative &&& mask = 0) (hzero : Status.zero &&& mask = 0) :
    (r.result v).flag mask = r.flag mask := Status.test_ofResult hneg hzero v

theorem carry_result : (r.result v).carry = r.carry := by
  unfold carry
  rw [flag_result r v rfl rfl]

theorem result_result : (r.result v).result w = r.result w := by
  simp only [result, Status.ofResult_ofResult]

theorem result_setFlag (hneg : Status.negative &&& mask = 0) (hzero : Status.zero &&& mask = 0) (on : Bool) :
    (r.setFlag mask on).result v = (r.result v).setFlag mask on := by
  simp only [result, setFlag, Status.ofResult_assign hneg hzero]

end Registers
end Vic20.Cpu
