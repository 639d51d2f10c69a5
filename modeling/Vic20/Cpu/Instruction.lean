/-! Instructions: an operation, an addressing mode and a base cycle count. Operations are grouped by
what they do with their operand. -/

namespace Vic20.Cpu

inductive Mode where
  | implied | accumulator | immediate
  | zeroPage | zeroPageX | zeroPageY
  | absolute | absoluteX | absoluteY
  | indexedIndirect | indirectIndexed
  | relative | indirect
  deriving DecidableEq, Repr

/-- Operations that read their operand. -/
inductive ReadOp where
  | lda | ldx | ldy | lax
  | adc | sbc | and | ora | eor
  | cmp | cpx | cpy | bit
  | anc | alr | arr | sbx
  deriving DecidableEq, Repr

/-- Operations that store a register. -/
inductive StoreOp where
  | sta | stx | sty | sax
  deriving DecidableEq, Repr

/-- Operations that read their operand and write it back changed. -/
inductive ModifyOp where
  | asl | lsr | rol | ror | inc | dec
  | slo | sre | rla | rra | isc | dcp
  deriving DecidableEq, Repr

/-- Operations within the registers. -/
inductive RegisterOp where
  | tax | tay | txa | tya | tsx | txs
  | inx | iny | dex | dey
  | clc | sec | cli | sei | cld | sed | clv
  deriving DecidableEq, Repr

/-- Conditional branches. -/
inductive BranchOp where
  | bcc | bcs | bne | beq | bpl | bmi | bvc | bvs
  deriving DecidableEq, Repr

/-- Jumps and stack operations. -/
inductive ControlOp where
  | jmp | jsr | rts | rti | brk
  | pha | php | pla | plp
  deriving DecidableEq, Repr

inductive Op where
  | read (op : ReadOp)
  | store (op : StoreOp)
  | modify (op : ModifyOp)
  | register (op : RegisterOp)
  | branch (op : BranchOp)
  | control (op : ControlOp)
  | nop
  deriving DecidableEq, Repr

/-- Operations that take a cycle more when indexing crosses a page. Stores and operations that write their
operand back have it built in; the others are not indexed. -/
def Op.paysPageCross : Op → Bool
  | .read .adc | .read .and | .read .cmp | .read .eor | .read .lda | .read .ldx | .read .ldy
  | .read .ora | .read .sbc | .read .lax | .nop => true
  | _ => false

structure Instruction where
  op : Op
  mode : Mode
  cycles : Nat
  deriving DecidableEq, Repr

end Vic20.Cpu
