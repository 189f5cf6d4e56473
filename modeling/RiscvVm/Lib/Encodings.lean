/-!
The words that rv64ima_zicsr_zifencei and the privileged instructions ECALL,
EBREAK, SRET, MRET, WFI and SFENCE.VMA assign a meaning to. The other 32-bit
words are reserved.
-/

namespace Encodings

variable (w : BitVec 32)

def opcode : BitVec 7 := w.extractLsb' 0 7
def rd : BitVec 5 := w.extractLsb' 7 5
def funct3 : BitVec 3 := w.extractLsb' 12 3
def rs1 : BitVec 5 := w.extractLsb' 15 5
def rs2 : BitVec 5 := w.extractLsb' 20 5
def imm : BitVec 12 := w.extractLsb' 20 12
def funct7 : BitVec 7 := w.extractLsb' 25 7
def funct6 : BitVec 6 := w.extractLsb' 26 6
def funct5 : BitVec 5 := w.extractLsb' 27 5

/-- The shifts of OP-IMM have a six-bit amount under the upper immediate. -/
def OpImm : Prop :=
  (funct3 w = 1 → funct6 w = 0) ∧ (funct3 w = 5 → funct6 w = 0 ∨ funct6 w = 0b010000)

/-- The shifts of OP-IMM-32 have a five-bit amount. -/
def OpImm32 : Prop :=
  funct3 w = 0 ∨ (funct3 w = 1 ∧ funct7 w = 0) ∨
    (funct3 w = 5 ∧ (funct7 w = 0 ∨ funct7 w = 0b0100000))

/-- The M extension has funct7 1; SUB and SRA have bit 5 of it. -/
def Op : Prop :=
  funct7 w = 0 ∨ funct7 w = 1 ∨ (funct7 w = 0b0100000 ∧ (funct3 w = 0 ∨ funct3 w = 5))

def Op32 : Prop :=
  (funct7 w = 0 ∧ (funct3 w = 0 ∨ funct3 w = 1 ∨ funct3 w = 5)) ∨
    (funct7 w = 0b0100000 ∧ (funct3 w = 0 ∨ funct3 w = 5)) ∨
    (funct7 w = 1 ∧ (funct3 w = 0 ∨ 4 ≤ funct3 w))

/-- FENCE with reserved fields is executed as an ordinary fence. -/
def MiscMem : Prop :=
  funct3 w = 0 ∨ (funct3 w = 1 ∧ rd w = 0 ∧ rs1 w = 0 ∧ imm w = 0)

def Amo : Prop :=
  (funct3 w = 2 ∨ funct3 w = 3) ∧
    (funct5 w ∈ [0x00, 0x01, 0x04, 0x08, 0x0C, 0x10, 0x14, 0x18, 0x1C] ∨ funct5 w = 0x03 ∨
      (funct5 w = 0x02 ∧ rs2 w = 0))

/-- The CSR instructions name any CSR; of the words with funct3 0, SFENCE.VMA
has two source registers and the others have no operands. -/
def System : Prop :=
  (funct3 w ≠ 0 ∧ funct3 w ≠ 4) ∨
    (funct3 w = 0 ∧ rd w = 0 ∧ (funct7 w = 0x09 ∨
      (rs1 w = 0 ∧ imm w ∈ [0x000, 0x001, 0x102, 0x302, 0x105])))

def Assigned : Prop :=
  match opcode w with
  | 0x37 | 0x17 | 0x6F => True
  | 0x67 => funct3 w = 0
  | 0x63 => funct3 w ≠ 2 ∧ funct3 w ≠ 3
  | 0x03 => funct3 w ≠ 7
  | 0x23 => funct3 w ≤ 3
  | 0x13 => OpImm w
  | 0x1B => OpImm32 w
  | 0x33 => Op w
  | 0x3B => Op32 w
  | 0x0F => MiscMem w
  | 0x2F => Amo w
  | 0x73 => System w
  | _ => False

end Encodings
