namespace RiscvVm

inductive Opcode
  | load
  | miscMem
  | opImm
  | auipc
  | opImm32
  | store
  | amo
  | op
  | lui
  | op32
  | branch
  | jalr
  | jal
  | system
deriving DecidableEq

def Opcode.code : Opcode → BitVec 7
  | .load => 0x03
  | .miscMem => 0x0F
  | .opImm => 0x13
  | .auipc => 0x17
  | .opImm32 => 0x1B
  | .store => 0x23
  | .amo => 0x2F
  | .op => 0x33
  | .lui => 0x37
  | .op32 => 0x3B
  | .branch => 0x63
  | .jalr => 0x67
  | .jal => 0x6F
  | .system => 0x73

/-- The cast to `opcode_t`; `none` is a value that is no enumerator and goes to
the `default` of every switch. -/
def Opcode.ofRaw (raw : BitVec 7) : Option Opcode :=
  [Opcode.load, .miscMem, .opImm, .auipc, .opImm32, .store, .amo, .op, .lui, .op32, .branch,
    .jalr, .jal, .system].find? (fun opcode => opcode.code == raw)

def opcodeOf (instruction : BitVec 32) : BitVec 7 := instruction.extractLsb' 0 7

structure RType where
  rd : BitVec 5
  funct3 : BitVec 3
  rs1 : BitVec 5
  rs2 : BitVec 5
  funct7 : BitVec 7
  opcode : BitVec 7
  raw : BitVec 32

structure IType where
  rd : BitVec 5
  funct3 : BitVec 3
  rs1 : BitVec 5
  opcode : BitVec 7
  imm : BitVec 64
  raw : BitVec 32

structure SType where
  funct3 : BitVec 3
  rs1 : BitVec 5
  rs2 : BitVec 5
  opcode : BitVec 7
  imm : BitVec 64
  raw : BitVec 32

structure BType where
  funct3 : BitVec 3
  rs1 : BitVec 5
  rs2 : BitVec 5
  opcode : BitVec 7
  imm : BitVec 64
  raw : BitVec 32

structure UType where
  rd : BitVec 5
  opcode : BitVec 7
  imm : BitVec 64
  raw : BitVec 32

structure JType where
  rd : BitVec 5
  opcode : BitVec 7
  imm : BitVec 64
  raw : BitVec 32

structure AType where
  rd : BitVec 5
  funct3 : BitVec 3
  rs1 : BitVec 5
  rs2 : BitVec 5
  rl : BitVec 1
  aq : BitVec 1
  funct5 : BitVec 5
  raw : BitVec 32

def signExtend (imm : BitVec 32) (bits : Nat) : BitVec 64 :=
  let sign := imm.setWidth 64 &&& (1#64 <<< (bits - 1)) ≠ 0
  if sign then (0xFFFFFFFFFFFFFFFF#64 <<< bits) ||| imm.setWidth 64
  else imm.setWidth 64

/-- `(instruction >> lo) & mask` for a field of `len` bits. -/
def field (instruction : BitVec 32) (lo len : Nat) : BitVec len := instruction.extractLsb' lo len

def decodeR (instruction : BitVec 32) : RType :=
  { rd := field instruction 7 5
    funct3 := field instruction 12 3
    rs1 := field instruction 15 5
    rs2 := field instruction 20 5
    funct7 := field instruction 25 7
    opcode := opcodeOf instruction
    raw := instruction }

def decodeI (instruction : BitVec 32) : IType :=
  let imm := (field instruction 20 12).setWidth 32
  { rd := field instruction 7 5
    funct3 := field instruction 12 3
    rs1 := field instruction 15 5
    opcode := opcodeOf instruction
    imm := signExtend imm 12
    raw := instruction }

def decodeS (instruction : BitVec 32) : SType :=
  let imm := (field instruction 7 5).setWidth 32 ||| ((field instruction 25 7).setWidth 32 <<< 5)
  { funct3 := field instruction 12 3
    rs1 := field instruction 15 5
    rs2 := field instruction 20 5
    opcode := opcodeOf instruction
    imm := signExtend imm 12
    raw := instruction }

def decodeB (instruction : BitVec 32) : BType :=
  let imm :=
    ((field instruction 8 4).setWidth 32 <<< 1) |||
    ((field instruction 25 6).setWidth 32 <<< 5) |||
    ((field instruction 7 1).setWidth 32 <<< 11) |||
    ((field instruction 31 1).setWidth 32 <<< 12)
  { funct3 := field instruction 12 3
    rs1 := field instruction 15 5
    rs2 := field instruction 20 5
    opcode := opcodeOf instruction
    imm := signExtend imm 13
    raw := instruction }

def decodeU (instruction : BitVec 32) : UType :=
  { rd := field instruction 7 5
    opcode := opcodeOf instruction
    imm := signExtend (instruction &&& 0xFFFFF000) 32
    raw := instruction }

def decodeJ (instruction : BitVec 32) : JType :=
  let imm :=
    ((field instruction 21 10).setWidth 32 <<< 1) |||
    ((field instruction 20 1).setWidth 32 <<< 11) |||
    ((field instruction 12 8).setWidth 32 <<< 12) |||
    ((field instruction 31 1).setWidth 32 <<< 20)
  { rd := field instruction 7 5
    opcode := opcodeOf instruction
    imm := signExtend imm 21
    raw := instruction }

def decodeA (instruction : BitVec 32) : AType :=
  { rd := field instruction 7 5
    funct3 := field instruction 12 3
    rs1 := field instruction 15 5
    rs2 := field instruction 20 5
    rl := field instruction 25 1
    aq := field instruction 26 1
    funct5 := field instruction 27 5
    raw := instruction }

end RiscvVm
