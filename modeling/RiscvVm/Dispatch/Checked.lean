import RiscvVm.Dispatch.Integer
import RiscvVm.Lib.CInt

/-!
The handlers of op_32.c, op_imm_32.c and m_extension.c with the types of their C
expressions. `none` is a handler whose behaviour C leaves undefined.
-/

namespace RiscvVm.Checked
open CInt

/-- A constant of type `int`. -/
def lit (n : Int) : Val int32 := ofInt int32 n

def signExtend (imm : Val uint32) (bits : Val uint8) : Option (Val uint64) := do
  let place ← CInt.sub bits (lit 1)
  let mask ← shl (ofInt uint64 1) place
  let sign := !eq (band imm mask) (lit 0)
  if sign then
    let ones ← shl (ofInt uint64 0xFFFFFFFFFFFFFFFF) bits
    return convert uint64 (bor ones imm)
  else return convert uint64 imm

/-- `sign_extend(e, 32)` of an expression of any type. -/
def signExtend32 {t : CType} (e : Val t) : Option (Val uint64) :=
  signExtend (convert uint32 e) (convert uint8 (lit 32))

/-- What the handlers with two `int32_t` operands have in common. -/
def wordArith (f : Val int32 → Val int32 → Option (Val int32)) (rs1 rs2 : Val uint64) :
    Option (Val uint64) := do
  let result ← f (convert int32 rs1) (convert int32 rs2)
  signExtend32 result

def addw := wordArith fun rs1 rs2 => CInt.add rs1 rs2
def subw := wordArith fun rs1 rs2 => CInt.sub rs1 rs2

/-- The amount of a shift: the low byte of a register under a mask. -/
def shiftAmount (mask : Int) (rs2 : Val uint64) : Val uint8 :=
  convert uint8 (band (convert uint8 rs2) (lit mask))

def sllw (rs1 rs2 : Val uint64) : Option (Val uint64) := do
  let shifted ← shl (convert uint32 rs1) (shiftAmount 0x1F rs2)
  signExtend32 shifted

def srlw (rs1 rs2 : Val uint64) : Option (Val uint64) := do
  let shifted ← shr (convert uint32 rs1) (shiftAmount 0x1F rs2)
  signExtend32 shifted

def sraw (rs1 rs2 : Val uint64) : Option (Val uint64) := do
  let shifted ← shr (convert int32 rs1) (shiftAmount 0xF rs2)
  signExtend32 shifted

def addiw (rs1 imm : Val uint64) : Option (Val uint64) := do
  let result ← CInt.add (convert uint32 rs1) (convert int32 imm)
  signExtend32 (convert uint32 result)

def shamt (imm : Val uint64) : Val uint8 := convert uint8 (band imm (lit 0x1F))

def slliw (rs1 imm : Val uint64) : Option (Val uint64) := do
  let shifted ← shl (convert uint32 rs1) (shamt imm)
  signExtend32 shifted

def sraiw (rs1 imm : Val uint64) : Option (Val uint64) := do
  let result ← shr (convert int32 rs1) (shamt imm)
  signExtend32 (convert int32 result)

def srliw (rs1 imm : Val uint64) : Option (Val uint64) := do
  let shifted ← shr (convert uint32 rs1) (shamt imm)
  signExtend32 shifted

def mul (rs1 rs2 : Val uint64) : Option (Val uint64) := do
  let product ← CInt.mul rs1 rs2
  return convert uint64 product

def mulh (rs1 rs2 : Val uint64) : Option (Val uint64) := do
  let product ← CInt.mul (convert int128 (convert int64 rs1)) (convert int64 rs2)
  let high ← shr (convert int128 product) (lit 64)
  return convert uint64 (convert int64 high)

def mulhsu (rs1 rs2 : Val uint64) : Option (Val uint64) := do
  let product ← CInt.mul (convert int128 (convert int64 rs1)) rs2
  let high ← shr (convert int128 product) (lit 64)
  return convert uint64 (convert int64 high)

def mulhu (rs1 rs2 : Val uint64) : Option (Val uint64) := do
  let product ← CInt.mul (convert uint128 rs1) rs2
  let high ← shr (convert uint128 product) (lit 64)
  return convert uint64 (convert uint64 high)

/-- `rs2 == 0 ? x : f(rs1, rs2)`, in the common type of the two arms. -/
def unlessZero {s t u : CType} (rs2 : Val s) (x : Val t) (f : Option (Val u)) :
    Option (Val (common t u)) :=
  if eq rs2 (lit 0) then some (convert (common t u) x) else f.map (convert (common t u))

/-- The constant `0xFFFFFFFFFFFFFFFF`. -/
def ones : Val uint64 := ofInt uint64 0xFFFFFFFFFFFFFFFF

/-- What the handlers of the signed divisions do: `least` is the type's least
number, and its quotient by -1 has an arm of its own. -/
def signedDivision {s t u : CType} (result : CType) (least : Int) (onOverflow : Val t)
    (otherwise : Val s → Val s → Option (Val u)) (rs1 rs2 : Val s) : Option (Val result) :=
  if eq rs1 (ofInt s least) && eq rs2 (lit (-1)) then some (convert result onOverflow)
  else (otherwise rs1 rs2).map (convert result)

def div (rs1 rs2 : Val uint64) : Option (Val uint64) := do
  let result ← signedDivision int64 (-2 ^ 63) (ofInt int64 (-2 ^ 63))
    (fun rs1 rs2 => unlessZero rs2 ones (CInt.div rs1 rs2)) (convert int64 rs1) (convert int64 rs2)
  return convert uint64 result

def divu (rs1 rs2 : Val uint64) : Option (Val uint64) := do
  let result ← unlessZero rs2 ones (CInt.div rs1 rs2)
  return convert uint64 result

def rem (rs1 rs2 : Val uint64) : Option (Val uint64) := do
  let result ← signedDivision int64 (-2 ^ 63) (lit 0)
    (fun rs1 rs2 => unlessZero rs2 rs1 (CInt.rem rs1 rs2)) (convert int64 rs1) (convert int64 rs2)
  return convert uint64 result

def remu (rs1 rs2 : Val uint64) : Option (Val uint64) := do
  let result ← unlessZero rs2 rs1 (CInt.rem rs1 rs2)
  return convert uint64 (convert int64 result)

/-- The product is one of two `int32_t`, before it is assigned to an `int64_t`. -/
def mulw (rs1 rs2 : Val uint64) : Option (Val uint64) := do
  let product ← CInt.mul (convert int32 rs1) (convert int32 rs2)
  signExtend32 (convert int32 (convert int64 product))

def divw (rs1 rs2 : Val uint64) : Option (Val uint64) := do
  let result ← signedDivision int64 (-2 ^ 31) (ofInt int32 (-2 ^ 31))
    (fun rs1 rs2 => unlessZero rs2 ones (CInt.div rs1 rs2)) (convert int32 rs1) (convert int32 rs2)
  signExtend32 (convert int32 result)

def divuw (rs1 rs2 : Val uint64) : Option (Val uint64) := do
  let rs1 := convert uint32 rs1
  let rs2 := convert uint32 rs2
  let result ← unlessZero rs2 (ofInt uint32 0xFFFFFFFF) (CInt.div rs1 rs2)
  signExtend32 (convert uint64 result)

def remw (rs1 rs2 : Val uint64) : Option (Val uint64) := do
  let result ← signedDivision int64 (-2 ^ 31) (lit 0)
    (fun rs1 rs2 => unlessZero rs2 rs1 (CInt.rem rs1 rs2)) (convert int32 rs1) (convert int32 rs2)
  signExtend32 (convert int32 result)

def remuw (rs1 rs2 : Val uint64) : Option (Val uint64) := do
  let rs1 := convert uint32 rs1
  let rs2 := convert uint32 rs2
  let result ← unlessZero rs2 (convert uint32 rs1) (CInt.rem rs1 rs2)
  signExtend32 (convert uint64 result)

/-- A handler that writes what it has computed from `rs1` and `rs2` to `rd`. -/
def registerOp (f : Val uint64 → Val uint64 → Option (Val uint64)) (cpu : Cpu)
    (instruction : RType) : Option Cpu :=
  (f ⟨cpuReadReg cpu instruction.rs1⟩ ⟨cpuReadReg cpu instruction.rs2⟩).map fun result =>
    cpuWriteReg cpu instruction.rd result.bits

def immediateOp (f : Val uint64 → Val uint64 → Option (Val uint64)) (cpu : Cpu)
    (instruction : IType) : Option Cpu :=
  (f ⟨cpuReadReg cpu instruction.rs1⟩ ⟨instruction.imm⟩).map fun result =>
    cpuWriteReg cpu instruction.rd result.bits

def dispatchOp32 (cpu : Cpu) (instruction : RType) : Option Cpu :=
  match instruction.funct3 with
  | 0x0 =>
    if instruction.funct7 = 0b0000000 then registerOp addw cpu instruction
    else if instruction.funct7 = 0b0100000 then registerOp subw cpu instruction
    else some cpu
  | 0x1 => registerOp sllw cpu instruction
  | 0x5 =>
    if instruction.funct7 = 0b0000000 then registerOp srlw cpu instruction
    else if instruction.funct7 = 0b0100000 then registerOp sraw cpu instruction
    else some cpu
  | _ => some (illegalInstruction cpu instruction.raw)

def sriw (cpu : Cpu) (instruction : IType) : Option Cpu :=
  if instruction.imm >>> 6 = 0b010000 then immediateOp sraiw cpu instruction
  else if instruction.imm >>> 6 = 0b000000 then immediateOp srliw cpu instruction
  else some (illegalInstruction cpu instruction.raw)

def dispatchOpImm32 (cpu : Cpu) (instruction : IType) : Option Cpu :=
  match instruction.funct3 with
  | 0x0 => immediateOp addiw cpu instruction
  | 0x1 => immediateOp slliw cpu instruction
  | 0x5 => sriw cpu instruction
  | _ => some (illegalInstruction cpu instruction.raw)

def dispatchMOp (cpu : Cpu) (instruction : RType) : Option Cpu :=
  match instruction.funct3 with
  | 0x0 => registerOp mul cpu instruction
  | 0x1 => registerOp mulh cpu instruction
  | 0x2 => registerOp mulhsu cpu instruction
  | 0x3 => registerOp mulhu cpu instruction
  | 0x4 => registerOp div cpu instruction
  | 0x5 => registerOp divu cpu instruction
  | 0x6 => registerOp rem cpu instruction
  | 0x7 => registerOp remu cpu instruction
  | _ => some (illegalInstruction cpu instruction.raw)

def dispatchMOp32 (cpu : Cpu) (instruction : RType) : Option Cpu :=
  match instruction.funct3 with
  | 0x0 => registerOp mulw cpu instruction
  | 0x4 => registerOp divw cpu instruction
  | 0x5 => registerOp divuw cpu instruction
  | 0x6 => registerOp remw cpu instruction
  | 0x7 => registerOp remuw cpu instruction
  | _ => some (illegalInstruction cpu instruction.raw)

/-- The dispatcher of a word that is one of OP-32, OP-IMM-32 or the M extension. -/
def dispatcherOf (word : BitVec 32) : Option (Cpu → Option Cpu) :=
  match Opcode.ofRaw (opcodeOf word) with
  | some .op =>
    if (decodeR word).funct7 = 0x01 then some (dispatchMOp · (decodeR word)) else none
  | some .op32 =>
    if (decodeR word).funct7 = 0x01 then some (dispatchMOp32 · (decodeR word))
    else some (dispatchOp32 · (decodeR word))
  | some .opImm32 => some (dispatchOpImm32 · (decodeI word))
  | _ => none

end RiscvVm.Checked
