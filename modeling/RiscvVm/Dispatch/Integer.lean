import RiscvVm.Trap
import RiscvVm.Decoding

namespace RiscvVm

/-- A handler that writes a function of `rs1` and `rs2` to `rd`. -/
def registerOp (f : BitVec 64 → BitVec 64 → BitVec 64) (cpu : Cpu) (instruction : RType) : Cpu :=
  cpuWriteReg cpu instruction.rd
    (f (cpuReadReg cpu instruction.rs1) (cpuReadReg cpu instruction.rs2))

/-- A handler that writes a function of `rs1` and the immediate to `rd`. -/
def immediateOp (f : BitVec 64 → BitVec 64 → BitVec 64) (cpu : Cpu) (instruction : IType) : Cpu :=
  cpuWriteReg cpu instruction.rd (f (cpuReadReg cpu instruction.rs1) instruction.imm)

/-- The integer result of a C comparison. -/
def ofBool (b : Bool) : BitVec 64 := if b then 1 else 0

def illegalInstruction (cpu : Cpu) (raw : BitVec 32) : Cpu :=
  raiseException cpu excIllegalInstruction (raw.setWidth 64)

def shamt6 (x : BitVec 64) : Nat := (x &&& 0x3F).toNat
def shamt5 (x : BitVec 64) : Nat := (x &&& 0x1F).toNat

def add := registerOp fun op1 op2 => op1 + op2
def sub := registerOp fun op1 op2 => op1 - op2
def sll := registerOp fun value rs2 => value <<< shamt6 rs2
def slt := registerOp fun rs1 rs2 => ofBool (rs1.slt rs2)
def sltu := registerOp fun rs1 rs2 => ofBool (rs1.ult rs2)
def xorOp := registerOp fun rs1 rs2 => rs1 ^^^ rs2
def srl := registerOp fun value rs2 => value >>> shamt6 rs2
def sra := registerOp fun value rs2 => value.sshiftRight (shamt6 rs2)
def orOp := registerOp fun rs1 rs2 => rs1 ||| rs2
def andOp := registerOp fun rs1 rs2 => rs1 &&& rs2

/-- A `funct7` that selects neither arm of funct3 0 and 5 returns without
raising anything. -/
def dispatchOp (cpu : Cpu) (instruction : RType) : Cpu :=
  match instruction.funct3 with
  | 0x0 =>
    if instruction.funct7 = 0b0000000 then add cpu instruction
    else if instruction.funct7 = 0b0100000 then sub cpu instruction
    else cpu
  | 0x1 => sll cpu instruction
  | 0x2 => slt cpu instruction
  | 0x3 => sltu cpu instruction
  | 0x4 => xorOp cpu instruction
  | 0x5 =>
    if instruction.funct7 = 0b0000000 then srl cpu instruction
    else if instruction.funct7 = 0b0100000 then sra cpu instruction
    else cpu
  | 0x6 => orOp cpu instruction
  | 0x7 => andOp cpu instruction
  | _ => illegalInstruction cpu instruction.raw

def addi := immediateOp fun regValue imm => regValue + imm
def slli := immediateOp fun operand imm => operand <<< shamt6 imm
def slti := immediateOp fun rs1 imm => if rs1.slt imm then 1 else 0
def sltiu := immediateOp fun rs1 imm => if rs1.ult imm then 1 else 0
def xori := immediateOp fun rs1 imm => rs1 ^^^ imm
def srli := immediateOp fun operand imm => operand >>> shamt6 imm
def srai := immediateOp fun operand imm => operand.sshiftRight (shamt6 imm)
def ori := immediateOp fun rs1 imm => rs1 ||| imm
def andi := immediateOp fun rs1 imm => rs1 &&& imm

def sri (cpu : Cpu) (instruction : IType) : Cpu :=
  if instruction.imm >>> 6 = 0b010000 then srai cpu instruction
  else if instruction.imm >>> 6 = 0b000000 then srli cpu instruction
  else illegalInstruction cpu instruction.raw

def dispatchOpImm (cpu : Cpu) (instruction : IType) : Cpu :=
  match instruction.funct3 with
  | 0x0 => addi cpu instruction
  | 0x1 => slli cpu instruction
  | 0x2 => slti cpu instruction
  | 0x3 => sltiu cpu instruction
  | 0x4 => xori cpu instruction
  | 0x5 => sri cpu instruction
  | 0x6 => ori cpu instruction
  | 0x7 => andi cpu instruction
  | _ => illegalInstruction cpu instruction.raw

/-- A 32-bit operation on the low halves, its result sign-extended. -/
def wordOp (f : BitVec 32 → BitVec 32 → BitVec 32) (x y : BitVec 64) : BitVec 64 :=
  signExtend (f (x.setWidth 32) (y.setWidth 32)) 32

def addw := registerOp (wordOp fun rs1 rs2 => rs1 + rs2)
def subw := registerOp (wordOp fun rs1 rs2 => rs1 - rs2)
def sllw := registerOp fun x y => signExtend (x.setWidth 32 <<< shamt5 y) 32
def srlw := registerOp fun x y => signExtend (x.setWidth 32 >>> shamt5 y) 32

/-- The shift amount is masked with `0xF` here, not `0x1F`. -/
def sraw := registerOp fun x y =>
  signExtend ((x.setWidth 32).sshiftRight (y &&& 0xF).toNat) 32

def dispatchOp32 (cpu : Cpu) (instruction : RType) : Cpu :=
  match instruction.funct3 with
  | 0x0 =>
    if instruction.funct7 = 0b0000000 then addw cpu instruction
    else if instruction.funct7 = 0b0100000 then subw cpu instruction
    else cpu
  | 0x1 => sllw cpu instruction
  | 0x5 =>
    if instruction.funct7 = 0b0000000 then srlw cpu instruction
    else if instruction.funct7 = 0b0100000 then sraw cpu instruction
    else cpu
  | _ => illegalInstruction cpu instruction.raw

def addiw := immediateOp (wordOp fun rs1 imm => rs1 + imm)
def slliw := immediateOp fun x imm => signExtend (x.setWidth 32 <<< shamt5 imm) 32
def sraiw := immediateOp fun x imm => signExtend ((x.setWidth 32).sshiftRight (shamt5 imm)) 32
def srliw := immediateOp fun x imm => signExtend (x.setWidth 32 >>> shamt5 imm) 32

def sriw (cpu : Cpu) (instruction : IType) : Cpu :=
  if instruction.imm >>> 6 = 0b010000 then sraiw cpu instruction
  else if instruction.imm >>> 6 = 0b000000 then srliw cpu instruction
  else illegalInstruction cpu instruction.raw

def dispatchOpImm32 (cpu : Cpu) (instruction : IType) : Cpu :=
  match instruction.funct3 with
  | 0x0 => addiw cpu instruction
  | 0x1 => slliw cpu instruction
  | 0x5 => sriw cpu instruction
  | _ => illegalInstruction cpu instruction.raw

/-- The upper half of a 128-bit product. -/
def highHalf (product : BitVec 128) : BitVec 64 := (product.sshiftRight 64).setWidth 64

def mul := registerOp fun rs1 rs2 => rs1 * rs2
def mulh := registerOp fun rs1 rs2 => highHalf (rs1.signExtend 128 * rs2.signExtend 128)
def mulhsu := registerOp fun rs1 rs2 => highHalf (rs1.signExtend 128 * rs2.setWidth 128)
def mulhu := registerOp fun rs1 rs2 =>
  ((rs1.setWidth 128 * rs2.setWidth 128) >>> 64).setWidth 64

/-- Signed division with the two cases the handlers guard against. -/
def guardedDiv {w : Nat} (rs1 rs2 : BitVec w) : BitVec w :=
  if rs1 = BitVec.intMin w ∧ rs2 = BitVec.allOnes w then BitVec.intMin w
  else if rs2 = 0 then BitVec.allOnes w else rs1.sdiv rs2

def guardedRem {w : Nat} (rs1 rs2 : BitVec w) : BitVec w :=
  if rs1 = BitVec.intMin w ∧ rs2 = BitVec.allOnes w then 0
  else if rs2 = 0 then rs1 else rs1.srem rs2

def guardedDivu {w : Nat} (rs1 rs2 : BitVec w) : BitVec w :=
  if rs2 = 0 then BitVec.allOnes w else rs1 / rs2

def guardedRemu {w : Nat} (rs1 rs2 : BitVec w) : BitVec w :=
  if rs2 = 0 then rs1 else rs1 % rs2

def div := registerOp guardedDiv
def divu := registerOp guardedDivu
def rem := registerOp guardedRem
def remu := registerOp guardedRemu
def mulw := registerOp (wordOp fun rs1 rs2 => rs1 * rs2)
def divw := registerOp (wordOp guardedDiv)
def divuw := registerOp (wordOp guardedDivu)
def remw := registerOp (wordOp guardedRem)
def remuw := registerOp (wordOp guardedRemu)

/-! The results of the division handlers as m_extension.c computes them, with
the conversions of its conditional expressions: `none` is a division that C
leaves undefined. -/

/-- Signed `/`, undefined by zero and for the quotient that does not fit. -/
def cDiv {w : Nat} (x y : BitVec w) : Option (BitVec w) :=
  if y = 0 ∨ x = BitVec.intMin w ∧ y = BitVec.allOnes w then none else some (x.sdiv y)

def cRem {w : Nat} (x y : BitVec w) : Option (BitVec w) :=
  if y = 0 ∨ x = BitVec.intMin w ∧ y = BitVec.allOnes w then none else some (x.srem y)

def cDivu {w : Nat} (x y : BitVec w) : Option (BitVec w) := if y = 0 then none else some (x / y)

def cRemu {w : Nat} (x y : BitVec w) : Option (BitVec w) := if y = 0 then none else some (x % y)

def divResult (rs1 rs2 : BitVec 64) : Option (BitVec 64) :=
  if rs1 = BitVec.intMin 64 ∧ rs2 = BitVec.allOnes 64 then some (BitVec.intMin 64)
  else if rs2 = 0 then some 0xFFFFFFFFFFFFFFFF else cDiv rs1 rs2

def divuResult (rs1 rs2 : BitVec 64) : Option (BitVec 64) :=
  if rs2 = 0 then some 0xFFFFFFFFFFFFFFFF else cDivu rs1 rs2

def remResult (rs1 rs2 : BitVec 64) : Option (BitVec 64) :=
  if rs1 = BitVec.intMin 64 ∧ rs2 = BitVec.allOnes 64 then some 0
  else if rs2 = 0 then some rs1 else cRem rs1 rs2

def remuResult (rs1 rs2 : BitVec 64) : Option (BitVec 64) :=
  if rs2 = 0 then some rs1 else cRemu rs1 rs2

/-- The quotient is an `int` and the other operand an `unsigned long`. -/
def divwResult (rs1 rs2 : BitVec 32) : Option (BitVec 64) :=
  if rs1 = BitVec.intMin 32 ∧ rs2 = BitVec.allOnes 32 then some ((BitVec.intMin 32).signExtend 64)
  else if rs2 = 0 then some 0xFFFFFFFFFFFFFFFF
  else (cDiv rs1 rs2).map fun quotient => quotient.signExtend 64

/-- Both operands are `unsigned int`. -/
def divuwResult (rs1 rs2 : BitVec 32) : Option (BitVec 64) :=
  (if rs2 = 0 then some 0xFFFFFFFF else cDivu rs1 rs2).map fun result => result.setWidth 64

def remwResult (rs1 rs2 : BitVec 32) : Option (BitVec 64) :=
  if rs1 = BitVec.intMin 32 ∧ rs2 = BitVec.allOnes 32 then some 0
  else (if rs2 = 0 then some rs1 else cRem rs1 rs2).map fun result => result.signExtend 64

def remuwResult (rs1 rs2 : BitVec 32) : Option (BitVec 64) :=
  (if rs2 = 0 then some rs1 else cRemu rs1 rs2).map fun result => result.setWidth 64

/-- What the handlers of the W forms write of their 64-bit `result`. -/
def wordResult (result : BitVec 32 → BitVec 32 → Option (BitVec 64)) (x y : BitVec 64) :
    Option (BitVec 64) :=
  (result (x.setWidth 32) (y.setWidth 32)).map fun value => signExtend (value.setWidth 32) 32

def dispatchMOp (cpu : Cpu) (instruction : RType) : Cpu :=
  match instruction.funct3 with
  | 0x0 => mul cpu instruction
  | 0x1 => mulh cpu instruction
  | 0x2 => mulhsu cpu instruction
  | 0x3 => mulhu cpu instruction
  | 0x4 => div cpu instruction
  | 0x5 => divu cpu instruction
  | 0x6 => rem cpu instruction
  | 0x7 => remu cpu instruction
  | _ => illegalInstruction cpu instruction.raw

def dispatchMOp32 (cpu : Cpu) (instruction : RType) : Cpu :=
  match instruction.funct3 with
  | 0x0 => mulw cpu instruction
  | 0x4 => divw cpu instruction
  | 0x5 => divuw cpu instruction
  | 0x6 => remw cpu instruction
  | 0x7 => remuw cpu instruction
  | _ => illegalInstruction cpu instruction.raw

def executeR (cpu : Cpu) (instruction : RType) : Cpu :=
  match Opcode.ofRaw instruction.opcode with
  | some .op =>
    if instruction.funct7 = 0x01 then dispatchMOp cpu instruction
    else dispatchOp cpu instruction
  | some .op32 =>
    if instruction.funct7 = 0x01 then dispatchMOp32 cpu instruction
    else dispatchOp32 cpu instruction
  | _ => illegalInstruction cpu instruction.raw

def lui (cpu : Cpu) (instruction : UType) : Cpu :=
  cpuWriteReg cpu instruction.rd instruction.imm

def auipc (cpu : Cpu) (instruction : UType) : Cpu :=
  cpuWriteReg cpu instruction.rd (cpu.pc + instruction.imm)

def executeU (cpu : Cpu) (instruction : UType) : Cpu :=
  match Opcode.ofRaw instruction.opcode with
  | some .lui => lui cpu instruction
  | some .auipc => auipc cpu instruction
  | _ => illegalInstruction cpu instruction.raw

def jal (cpu : Cpu) (instruction : JType) : Cpu :=
  let oldPc := cpu.pc
  let cpu := { cpu with pc := oldPc + instruction.imm, pcWritten := true }
  cpuWriteReg cpu instruction.rd (oldPc + 4)

def dispatchJal (cpu : Cpu) (instruction : JType) : Cpu :=
  if Opcode.ofRaw instruction.opcode ≠ some .jal then illegalInstruction cpu instruction.raw
  else jal cpu instruction

/-- The target is taken from `rs1` before `rd` is written. -/
def jalr (cpu : Cpu) (instruction : IType) : Cpu :=
  let addr := instruction.imm + cpuReadReg cpu instruction.rs1
  let addr := addr &&& ~~~1#64
  let cpu := cpuWriteReg cpu instruction.rd (cpu.pc + 4)
  { cpu with pc := addr, pcWritten := true }

/-- A branch handler: `taken` is its comparison of `rs1` and `rs2`. -/
def branchIf (taken : BitVec 64 → BitVec 64 → Bool) (cpu : Cpu) (instruction : BType) : Cpu :=
  if taken (cpuReadReg cpu instruction.rs1) (cpuReadReg cpu instruction.rs2) then
    { cpu with pc := cpu.pc + instruction.imm, pcWritten := true }
  else cpu

def beq := branchIf fun rs1 rs2 => rs1 == rs2
def bne := branchIf fun rs1 rs2 => rs1 != rs2
def blt := branchIf fun rs1 rs2 => rs1.slt rs2
def bge := branchIf fun rs1 rs2 => !rs1.slt rs2
def bltu := branchIf fun rs1 rs2 => rs1.ult rs2
def bgeu := branchIf fun rs1 rs2 => !rs1.ult rs2

def dispatchBranch (cpu : Cpu) (instruction : BType) : Cpu :=
  match instruction.funct3 with
  | 0x0 => beq cpu instruction
  | 0x1 => bne cpu instruction
  | 0x4 => blt cpu instruction
  | 0x5 => bge cpu instruction
  | 0x6 => bltu cpu instruction
  | 0x7 => bgeu cpu instruction
  | _ => illegalInstruction cpu instruction.raw

end RiscvVm
