import Vic20.Cpu.Instruction

/-! The opcode table, sixteen opcodes to a row. Missing entries are the opcodes that stop the
processor and those whose effect differs between chips. -/

namespace Vic20.Cpu

private def reads (op : ReadOp) (mode : Mode) (cycles : Nat) : Option Instruction :=
  some ⟨.read op, mode, cycles⟩
private def stores (op : StoreOp) (mode : Mode) (cycles : Nat) : Option Instruction :=
  some ⟨.store op, mode, cycles⟩
private def modifies (op : ModifyOp) (mode : Mode) (cycles : Nat) : Option Instruction :=
  some ⟨.modify op, mode, cycles⟩
private def onRegisters (op : RegisterOp) : Option Instruction := some ⟨.register op, .implied, 2⟩
private def branches (op : BranchOp) : Option Instruction := some ⟨.branch op, .relative, 2⟩
private def controls (op : ControlOp) (mode : Mode) (cycles : Nat) : Option Instruction :=
  some ⟨.control op, mode, cycles⟩
private def nops (mode : Mode) (cycles : Nat) : Option Instruction := some ⟨.nop, mode, cycles⟩

open Mode in
def opcodes : Vector (Vector (Option Instruction) 16) 16 := #v[
  #v[controls .brk implied 7, reads .ora indexedIndirect 6, none, modifies .slo indexedIndirect 8,
    nops zeroPage 3, reads .ora zeroPage 3, modifies .asl zeroPage 5, modifies .slo zeroPage 5,
    controls .php implied 3, reads .ora immediate 2, modifies .asl accumulator 2,
    reads .anc immediate 2, nops absolute 4, reads .ora absolute 4, modifies .asl absolute 6,
    modifies .slo absolute 6],
  #v[branches .bpl, reads .ora indirectIndexed 5, none, modifies .slo indirectIndexed 8,
    nops zeroPageX 4, reads .ora zeroPageX 4, modifies .asl zeroPageX 6, modifies .slo zeroPageX 6,
    onRegisters .clc, reads .ora absoluteY 4, nops implied 2, modifies .slo absoluteY 7,
    nops absoluteX 4, reads .ora absoluteX 4, modifies .asl absoluteX 7, modifies .slo absoluteX 7],
  #v[controls .jsr absolute 6, reads .and indexedIndirect 6, none, modifies .rla indexedIndirect 8,
    reads .bit zeroPage 3, reads .and zeroPage 3, modifies .rol zeroPage 5,
    modifies .rla zeroPage 5, controls .plp implied 4, reads .and immediate 2,
    modifies .rol accumulator 2, reads .anc immediate 2, reads .bit absolute 4,
    reads .and absolute 4, modifies .rol absolute 6, modifies .rla absolute 6],
  #v[branches .bmi, reads .and indirectIndexed 5, none, modifies .rla indirectIndexed 8,
    nops zeroPageX 4, reads .and zeroPageX 4, modifies .rol zeroPageX 6, modifies .rla zeroPageX 6,
    onRegisters .sec, reads .and absoluteY 4, nops implied 2, modifies .rla absoluteY 7,
    nops absoluteX 4, reads .and absoluteX 4, modifies .rol absoluteX 7, modifies .rla absoluteX 7],
  #v[controls .rti implied 6, reads .eor indexedIndirect 6, none, modifies .sre indexedIndirect 8,
    nops zeroPage 3, reads .eor zeroPage 3, modifies .lsr zeroPage 5, modifies .sre zeroPage 5,
    controls .pha implied 3, reads .eor immediate 2, modifies .lsr accumulator 2,
    reads .alr immediate 2, controls .jmp absolute 3, reads .eor absolute 4,
    modifies .lsr absolute 6, modifies .sre absolute 6],
  #v[branches .bvc, reads .eor indirectIndexed 5, none, modifies .sre indirectIndexed 8,
    nops zeroPageX 4, reads .eor zeroPageX 4, modifies .lsr zeroPageX 6, modifies .sre zeroPageX 6,
    onRegisters .cli, reads .eor absoluteY 4, nops implied 2, modifies .sre absoluteY 7,
    nops absoluteX 4, reads .eor absoluteX 4, modifies .lsr absoluteX 7, modifies .sre absoluteX 7],
  #v[controls .rts implied 6, reads .adc indexedIndirect 6, none, modifies .rra indexedIndirect 8,
    nops zeroPage 3, reads .adc zeroPage 3, modifies .ror zeroPage 5, modifies .rra zeroPage 5,
    controls .pla implied 4, reads .adc immediate 2, modifies .ror accumulator 2,
    reads .arr immediate 2, controls .jmp indirect 5, reads .adc absolute 4,
    modifies .ror absolute 6, modifies .rra absolute 6],
  #v[branches .bvs, reads .adc indirectIndexed 5, none, modifies .rra indirectIndexed 8,
    nops zeroPageX 4, reads .adc zeroPageX 4, modifies .ror zeroPageX 6, modifies .rra zeroPageX 6,
    onRegisters .sei, reads .adc absoluteY 4, nops implied 2, modifies .rra absoluteY 7,
    nops absoluteX 4, reads .adc absoluteX 4, modifies .ror absoluteX 7, modifies .rra absoluteX 7],
  #v[nops immediate 2, stores .sta indexedIndirect 6, nops immediate 2,
    stores .sax indexedIndirect 6, stores .sty zeroPage 3, stores .sta zeroPage 3,
    stores .stx zeroPage 3, stores .sax zeroPage 3, onRegisters .dey, nops immediate 2,
    onRegisters .txa, none, stores .sty absolute 4, stores .sta absolute 4, stores .stx absolute 4,
    stores .sax absolute 4],
  #v[branches .bcc, stores .sta indirectIndexed 6, none, none, stores .sty zeroPageX 4,
    stores .sta zeroPageX 4, stores .stx zeroPageY 4, stores .sax zeroPageY 4, onRegisters .tya,
    stores .sta absoluteY 5, onRegisters .txs, none, none, stores .sta absoluteX 5, none, none],
  #v[reads .ldy immediate 2, reads .lda indexedIndirect 6, reads .ldx immediate 2,
    reads .lax indexedIndirect 6, reads .ldy zeroPage 3, reads .lda zeroPage 3,
    reads .ldx zeroPage 3, reads .lax zeroPage 3, onRegisters .tay, reads .lda immediate 2,
    onRegisters .tax, none, reads .ldy absolute 4, reads .lda absolute 4, reads .ldx absolute 4,
    reads .lax absolute 4],
  #v[branches .bcs, reads .lda indirectIndexed 5, none, reads .lax indirectIndexed 5,
    reads .ldy zeroPageX 4, reads .lda zeroPageX 4, reads .ldx zeroPageY 4, reads .lax zeroPageY 4,
    onRegisters .clv, reads .lda absoluteY 4, onRegisters .tsx, none, reads .ldy absoluteX 4,
    reads .lda absoluteX 4, reads .ldx absoluteY 4, reads .lax absoluteY 4],
  #v[reads .cpy immediate 2, reads .cmp indexedIndirect 6, nops immediate 2,
    modifies .dcp indexedIndirect 8, reads .cpy zeroPage 3, reads .cmp zeroPage 3,
    modifies .dec zeroPage 5, modifies .dcp zeroPage 5, onRegisters .iny, reads .cmp immediate 2,
    onRegisters .dex, reads .sbx immediate 2, reads .cpy absolute 4, reads .cmp absolute 4,
    modifies .dec absolute 6, modifies .dcp absolute 6],
  #v[branches .bne, reads .cmp indirectIndexed 5, none, modifies .dcp indirectIndexed 8,
    nops zeroPageX 4, reads .cmp zeroPageX 4, modifies .dec zeroPageX 6, modifies .dcp zeroPageX 6,
    onRegisters .cld, reads .cmp absoluteY 4, nops implied 2, modifies .dcp absoluteY 7,
    nops absoluteX 4, reads .cmp absoluteX 4, modifies .dec absoluteX 7, modifies .dcp absoluteX 7],
  #v[reads .cpx immediate 2, reads .sbc indexedIndirect 6, nops immediate 2,
    modifies .isc indexedIndirect 8, reads .cpx zeroPage 3, reads .sbc zeroPage 3,
    modifies .inc zeroPage 5, modifies .isc zeroPage 5, onRegisters .inx, reads .sbc immediate 2,
    nops implied 2, reads .sbc immediate 2, reads .cpx absolute 4, reads .sbc absolute 4,
    modifies .inc absolute 6, modifies .isc absolute 6],
  #v[branches .beq, reads .sbc indirectIndexed 5, none, modifies .isc indirectIndexed 8,
    nops zeroPageX 4, reads .sbc zeroPageX 4, modifies .inc zeroPageX 6, modifies .isc zeroPageX 6,
    onRegisters .sed, reads .sbc absoluteY 4, nops implied 2, modifies .isc absoluteY 7,
    nops absoluteX 4, reads .sbc absoluteX 4, modifies .inc absoluteX 7, modifies .isc absoluteX 7]]

theorem row_lt (opcode : UInt8) : opcode.toNat / 16 < 16 := by
  have := opcode.toNat_lt
  omega

def decode (opcode : UInt8) : Option Instruction := (opcodes.get ⟨opcode.toNat / 16, row_lt opcode⟩).get
    ⟨opcode.toNat % 16, Nat.mod_lt _ (by decide)⟩

end Vic20.Cpu
