import RiscvVm.Debugger

/-!
The text of `disassemble_line`, as its mnemonic and its operands in the order in
which they are printed. A mnemonic that is `none` is a NULL for `%s`.
-/

namespace RiscvVm

inductive Operand
  | register (r : BitVec 5)
  | decimal (n : Int)
  | hexadecimal (n : Nat)
deriving DecidableEq

inductive Line
  | word (instruction : BitVec 32)
  | instruction (mnemonic : Option String) (operands : List Operand)
deriving DecidableEq

def loadMnemonics : BitVec 3 → Option String
  | 0b000 => some "lb"
  | 0b001 => some "lh"
  | 0b010 => some "lw"
  | 0b011 => some "ld"
  | 0b100 => some "lbu"
  | 0b101 => some "lhu"
  | 0b110 => some "lwu"
  | _ => none

def storeMnemonics : BitVec 3 → Option String
  | 0b000 => some "sb"
  | 0b001 => some "sh"
  | 0b010 => some "sw"
  | 0b011 => some "sd"
  | _ => none

def branchMnemonics : BitVec 3 → Option String
  | 0b000 => some "beq"
  | 0b001 => some "bne"
  | 0b100 => some "blt"
  | 0b101 => some "bge"
  | 0b110 => some "bltu"
  | 0b111 => some "bgeu"
  | _ => none

def opMnemonics : BitVec 3 → Option String
  | 0b000 => some "add"
  | 0b001 => some "sll"
  | 0b010 => some "slt"
  | 0b011 => some "sltu"
  | 0b100 => some "xor"
  | 0b101 => some "srl"
  | 0b110 => some "or"
  | 0b111 => some "and"
  | _ => none

def opAltMnemonics : BitVec 3 → Option String
  | 0b000 => some "sub"
  | 0b101 => some "sra"
  | _ => none

def op32Mnemonics : BitVec 3 → Option String
  | 0b000 => some "addw"
  | 0b001 => some "sllw"
  | 0b101 => some "srlw"
  | _ => none

def op32AltMnemonics : BitVec 3 → Option String
  | 0b000 => some "subw"
  | 0b101 => some "sraw"
  | _ => none

def systemMnemonics : BitVec 3 → Option String
  | 0b001 => some "csrrw"
  | 0b010 => some "csrrs"
  | 0b011 => some "csrrc"
  | 0b101 => some "csrrwi"
  | 0b110 => some "csrrsi"
  | 0b111 => some "csrrci"
  | _ => none

/-- The table has an entry for each immediate of twelve bits. -/
def systemAltMnemonics : BitVec 12 → Option String
  | 0x000 => some "ecall"
  | 0x001 => some "ebreak"
  | 0x102 => some "sret"
  | 0x105 => some "wfi"
  | 0x302 => some "mret"
  | _ => none

def miscMemMnemonics : BitVec 3 → Option String
  | 0b000 => some "fence"
  | 0b001 => some "fence.i"
  | _ => none

def opImmMnemonics : BitVec 3 → Option String
  | 0b000 => some "addi"
  | 0b001 => some "slli"
  | 0b010 => some "slti"
  | 0b011 => some "sltiu"
  | 0b100 => some "xori"
  | 0b101 => some "srli"
  | 0b110 => some "ori"
  | 0b111 => some "andi"
  | _ => none

def opImmAltMnemonics : BitVec 3 → Option String
  | 0b101 => some "srai"
  | _ => none

def opImm32Mnemonics : BitVec 3 → Option String
  | 0b000 => some "addiw"
  | 0b001 => some "slliw"
  | 0b101 => some "srliw"
  | _ => none

def opImm32AltMnemonics : BitVec 3 → Option String
  | 0b101 => some "sraiw"
  | _ => none

/-- The line for the instruction read at `addr`. It is a `.word` where no branch
of the switch prints another. -/
def lineOf (instruction : BitVec 32) (addr : BitVec 64) : Line :=
  match Opcode.ofRaw (opcodeOf instruction) with
  | some .lui =>
    let decoded := decodeU instruction
    .instruction (some "lui")
      [.register decoded.rd, .hexadecimal (instruction >>> 12).toNat]
  | some .auipc =>
    let decoded := decodeU instruction
    .instruction (some "auipc")
      [.register decoded.rd, .hexadecimal (instruction >>> 12).toNat]
  | some .jal =>
    let decoded := decodeJ instruction
    .instruction (some "jal") [.register decoded.rd, .decimal decoded.imm.toInt]
  | some .jalr =>
    let decoded := decodeI instruction
    .instruction (some "jalr")
      [.register decoded.rd, .decimal decoded.imm.toInt, .register decoded.rs1]
  | some .load =>
    let decoded := decodeI instruction
    .instruction (loadMnemonics decoded.funct3)
      [.register decoded.rd, .decimal decoded.imm.toInt, .register decoded.rs1]
  | some .opImm =>
    let decoded := decodeI instruction
    let funct6 := field instruction 26 6
    let shamt := field instruction 20 6
    let shift (mnemonic : Option String) : Line :=
      .instruction mnemonic
        [.register decoded.rd, .register decoded.rs1, .decimal shamt.toNat]
    if decoded.funct3 = 0x1 then shift (opImmMnemonics decoded.funct3)
    else if decoded.funct3 = 0x5 then
      if funct6 = 0x00 then shift (opImmMnemonics decoded.funct3)
      else if funct6 = 0x10 then shift (opImmAltMnemonics decoded.funct3)
      else .word instruction
    else
      .instruction (opImmMnemonics decoded.funct3)
        [.register decoded.rd, .register decoded.rs1, .decimal decoded.imm.toInt]
  | some .system =>
    let decoded := decodeI instruction
    if decoded.funct3 = 0 then .instruction (systemAltMnemonics (field instruction 20 12)) []
    else if decoded.funct3 ≥ 1 ∧ decoded.funct3 ≤ 3 then
      .instruction (systemMnemonics decoded.funct3)
        [.register decoded.rd, .hexadecimal (decoded.imm.setWidth 16).toNat,
          .register decoded.rs1]
    else if decoded.funct3 ≥ 5 ∧ decoded.funct3 ≤ 7 then
      .instruction (systemMnemonics decoded.funct3)
        [.register decoded.rd, .hexadecimal (decoded.imm.setWidth 16).toNat,
          .decimal decoded.rs1.toNat]
    else .word instruction
  | some .miscMem =>
    let decoded := decodeI instruction
    .instruction (miscMemMnemonics decoded.funct3) []
  | some .opImm32 =>
    let decoded := decodeI instruction
    let funct7 := field instruction 25 7
    let shamt := field instruction 20 5
    let shift (mnemonic : Option String) : Line :=
      .instruction mnemonic
        [.register decoded.rd, .register decoded.rs1, .decimal shamt.toNat]
    if decoded.funct3 = 0x1 then shift (opImm32Mnemonics decoded.funct3)
    else if decoded.funct3 = 0x5 then
      if funct7 = 0x00 then shift (opImm32Mnemonics decoded.funct3)
      else if funct7 = 0x10 then shift (opImm32AltMnemonics decoded.funct3)
      else .word instruction
    else
      .instruction (opImm32Mnemonics decoded.funct3)
        [.register decoded.rd, .register decoded.rs1,
          .decimal (decoded.imm.setWidth 32).toInt]
  | some .branch =>
    let decoded := decodeB instruction
    .instruction (branchMnemonics decoded.funct3)
      [.register decoded.rs1, .register decoded.rs2, .hexadecimal (addr + decoded.imm).toNat]
  | some .store =>
    let decoded := decodeS instruction
    .instruction (storeMnemonics decoded.funct3)
      [.register decoded.rs2, .decimal decoded.imm.toInt, .register decoded.rs1]
  | some .op =>
    let decoded := decodeR instruction
    let mnemonic :=
      if decoded.funct7 = 0x0 then opMnemonics decoded.funct3 else opAltMnemonics decoded.funct3
    .instruction mnemonic
      [.register decoded.rd, .register decoded.rs1, .register decoded.rs2]
  | some .op32 =>
    let decoded := decodeR instruction
    let mnemonic :=
      if decoded.funct7 = 0x0 then op32Mnemonics decoded.funct3
      else op32AltMnemonics decoded.funct3
    .instruction mnemonic
      [.register decoded.rd, .register decoded.rs1, .register decoded.rs2]
  | _ => .word instruction

/-- The words that `step` shows, each before the instruction is executed. -/
def stepWords : Nat → Vm → List (BitVec 32)
  | 0, _ => []
  | steps + 1, vm =>
    let (vm, word) := disassembleLine vm vm.cpu.pc
    word :: stepWords steps (cpuStep vm)

/-- The word that `run` shows where it returns, if it does within so many turns of
its loop. -/
def runWord (breakpoints : Breakpoints) : Nat → Vm → Option (BitVec 32)
  | 0, _ => none
  | turns + 1, vm =>
    if isBreakpoint breakpoints vm.cpu.pc then some (disassembleLine vm vm.cpu.pc).2
    else runWord breakpoints turns (cpuStep vm)

/-- The word that `state` shows, after the fetch it makes. -/
def stateWord (vm : Vm) : BitVec 32 :=
  let (vm, _) := cpuFetch vm
  (disassembleLine vm vm.cpu.pc).2

end RiscvVm
