import RiscvVm.Disassembler
import RiscvVm.Proofs.Reserved

namespace RiscvVm.Proofs

/-- A handler as the dispatchers call it: the name of its operation, its
operands in the order of the assembler and what it does to the machine. -/
structure Handler where
  mnemonic : String
  operands : List Operand
  run : Vm → Vm

def Handler.line (h : Handler) : Line := .instruction (some h.mnemonic) h.operands

section
variable (word : BitVec 32) (mnemonic : String)

def registerForm (handler : Cpu → RType → Cpu) : Handler :=
  let decoded := decodeR word
  { mnemonic := mnemonic
    operands := [.register decoded.rd, .register decoded.rs1, .register decoded.rs2]
    run := fun vm => vm.onCpu (handler · decoded) }

def immediateForm (handler : Cpu → IType → Cpu) : Handler :=
  let decoded := decodeI word
  { mnemonic := mnemonic
    operands := [.register decoded.rd, .register decoded.rs1, .decimal decoded.imm.toInt]
    run := fun vm => vm.onCpu (handler · decoded) }

/-- The shifts use the low bits of their immediate. -/
def shiftForm (shamt : BitVec 64 → Nat) (handler : Cpu → IType → Cpu) : Handler :=
  let decoded := decodeI word
  { mnemonic := mnemonic
    operands := [.register decoded.rd, .register decoded.rs1, .decimal (shamt decoded.imm)]
    run := fun vm => vm.onCpu (handler · decoded) }

/-- The operand is the part of the immediate that is not zero in all words. -/
def upperForm (handler : Cpu → UType → Cpu) : Handler :=
  let decoded := decodeU word
  { mnemonic := mnemonic
    operands := [.register decoded.rd, .hexadecimal (decoded.imm.extractLsb' 12 20).toNat]
    run := fun vm => vm.onCpu (handler · decoded) }

def jumpForm (handler : Cpu → JType → Cpu) : Handler :=
  let decoded := decodeJ word
  { mnemonic := mnemonic
    operands := [.register decoded.rd, .decimal decoded.imm.toInt]
    run := fun vm => vm.onCpu (handler · decoded) }

/-- A register and an address made of an offset and a base register. -/
def addressOperands (r : BitVec 5) (imm : BitVec 64) (base : BitVec 5) : List Operand :=
  [.register r, .decimal imm.toInt, .register base]

def jumpRegisterForm (handler : Cpu → IType → Cpu) : Handler :=
  let decoded := decodeI word
  { mnemonic := mnemonic
    operands := addressOperands decoded.rd decoded.imm decoded.rs1
    run := fun vm => vm.onCpu (handler · decoded) }

def loadForm (handler : Vm → IType → Vm) : Handler :=
  let decoded := decodeI word
  { mnemonic := mnemonic
    operands := addressOperands decoded.rd decoded.imm decoded.rs1
    run := fun vm => handler vm decoded }

def storeForm (handler : Vm → SType → Vm) : Handler :=
  let decoded := decodeS word
  { mnemonic := mnemonic
    operands := addressOperands decoded.rs2 decoded.imm decoded.rs1
    run := fun vm => handler vm decoded }

/-- A branch at `addr` is given by its target. -/
def branchForm (addr : BitVec 64) (handler : Cpu → BType → Cpu) : Handler :=
  let decoded := decodeB word
  { mnemonic := mnemonic
    operands := [.register decoded.rs1, .register decoded.rs2,
      .hexadecimal (addr + decoded.imm).toNat]
    run := fun vm => vm.onCpu (handler · decoded) }

def bareForm (handler : Vm → IType → Vm) : Handler :=
  { mnemonic := mnemonic
    operands := []
    run := fun vm => handler vm (decodeI word) }

/-- The handlers take the number of the CSR from the raw word. -/
def csrForm (source : Operand) (handler : Vm → IType → Vm) : Handler :=
  let decoded := decodeI word
  { mnemonic := mnemonic
    operands := [.register decoded.rd, .hexadecimal (field decoded.raw 20 12).toNat, source]
    run := fun vm => handler vm decoded }

end

section
variable (word : BitVec 32)

def branchHandler (addr : BitVec 64) : Option Handler :=
  match funct3Of word with
  | 0x0 => some (branchForm word "beq" addr beq)
  | 0x1 => some (branchForm word "bne" addr bne)
  | 0x4 => some (branchForm word "blt" addr blt)
  | 0x5 => some (branchForm word "bge" addr bge)
  | 0x6 => some (branchForm word "bltu" addr bltu)
  | 0x7 => some (branchForm word "bgeu" addr bgeu)
  | _ => none

def loadHandler : Option Handler :=
  match funct3Of word with
  | 0x0 => some (loadForm word "lb" lb)
  | 0x1 => some (loadForm word "lh" lh)
  | 0x2 => some (loadForm word "lw" lw)
  | 0x3 => some (loadForm word "ld" ld)
  | 0x4 => some (loadForm word "lbu" lbu)
  | 0x5 => some (loadForm word "lhu" lhu)
  | 0x6 => some (loadForm word "lwu" lwu)
  | _ => none

def storeHandler : Option Handler :=
  match funct3Of word with
  | 0x0 => some (storeForm word "sb" sb)
  | 0x1 => some (storeForm word "sh" sh)
  | 0x2 => some (storeForm word "sw" sw)
  | 0x3 => some (storeForm word "sd" sd)
  | _ => none

def opImmHandler : Option Handler :=
  match funct3Of word with
  | 0x0 => some (immediateForm word "addi" addi)
  | 0x1 => some (shiftForm word "slli" shamt6 slli)
  | 0x2 => some (immediateForm word "slti" slti)
  | 0x3 => some (immediateForm word "sltiu" sltiu)
  | 0x4 => some (immediateForm word "xori" xori)
  | 0x5 =>
    if (decodeI word).imm >>> 6 = 0b010000 then some (shiftForm word "srai" shamt6 srai)
    else if (decodeI word).imm >>> 6 = 0b000000 then some (shiftForm word "srli" shamt6 srli)
    else none
  | 0x6 => some (immediateForm word "ori" ori)
  | 0x7 => some (immediateForm word "andi" andi)
  | _ => none

def opImm32Handler : Option Handler :=
  match funct3Of word with
  | 0x0 => some (immediateForm word "addiw" addiw)
  | 0x1 => some (shiftForm word "slliw" shamt5 slliw)
  | 0x5 =>
    if (decodeI word).imm >>> 6 = 0b010000 then some (shiftForm word "sraiw" shamt5 sraiw)
    else if (decodeI word).imm >>> 6 = 0b000000 then some (shiftForm word "srliw" shamt5 srliw)
    else none
  | _ => none

def opHandler : Option Handler :=
  match funct3Of word with
  | 0x0 =>
    if (decodeR word).funct7 = 0b0000000 then some (registerForm word "add" add)
    else if (decodeR word).funct7 = 0b0100000 then some (registerForm word "sub" sub)
    else none
  | 0x1 => some (registerForm word "sll" sll)
  | 0x2 => some (registerForm word "slt" slt)
  | 0x3 => some (registerForm word "sltu" sltu)
  | 0x4 => some (registerForm word "xor" xorOp)
  | 0x5 =>
    if (decodeR word).funct7 = 0b0000000 then some (registerForm word "srl" srl)
    else if (decodeR word).funct7 = 0b0100000 then some (registerForm word "sra" sra)
    else none
  | 0x6 => some (registerForm word "or" orOp)
  | 0x7 => some (registerForm word "and" andOp)
  | _ => none

def mOpHandler : Option Handler :=
  match funct3Of word with
  | 0x0 => some (registerForm word "mul" mul)
  | 0x1 => some (registerForm word "mulh" mulh)
  | 0x2 => some (registerForm word "mulhsu" mulhsu)
  | 0x3 => some (registerForm word "mulhu" mulhu)
  | 0x4 => some (registerForm word "div" div)
  | 0x5 => some (registerForm word "divu" divu)
  | 0x6 => some (registerForm word "rem" rem)
  | 0x7 => some (registerForm word "remu" remu)
  | _ => none

def op32Handler : Option Handler :=
  match funct3Of word with
  | 0x0 =>
    if (decodeR word).funct7 = 0b0000000 then some (registerForm word "addw" addw)
    else if (decodeR word).funct7 = 0b0100000 then some (registerForm word "subw" subw)
    else none
  | 0x1 => some (registerForm word "sllw" sllw)
  | 0x5 =>
    if (decodeR word).funct7 = 0b0000000 then some (registerForm word "srlw" srlw)
    else if (decodeR word).funct7 = 0b0100000 then some (registerForm word "sraw" sraw)
    else none
  | _ => none

def mOp32Handler : Option Handler :=
  match funct3Of word with
  | 0x0 => some (registerForm word "mulw" mulw)
  | 0x4 => some (registerForm word "divw" divw)
  | 0x5 => some (registerForm word "divuw" divuw)
  | 0x6 => some (registerForm word "remw" remw)
  | 0x7 => some (registerForm word "remuw" remuw)
  | _ => none

def miscMemHandler : Option Handler :=
  match funct3Of word with
  | 0x0 => some (bareForm word "fence" fence)
  | 0x1 => some (bareForm word "fence.i" fenceI)
  | _ => none

/-- SFENCE.VMA is printed with its two source registers. -/
def sfenceForm : Handler :=
  { mnemonic := "sfence.vma"
    operands := [.register (rs1Of word), .register (rs2Of word)]
    run := fun vm => sfenceVma vm (decodeI word) }

def systemHandler : Option Handler :=
  match funct3Of word with
  | 0x0 =>
    if field word 25 7 = 0x09 ∧ rdOf word = 0 then some (sfenceForm word)
    else
      match (decodeI word).imm with
      | 0x000 => some (bareForm word "ecall" ecall)
      | 0x001 => some (bareForm word "ebreak" ebreak)
      | 0x102 => some (bareForm word "sret" sret)
      | 0x302 => some (bareForm word "mret" mret)
      | 0x105 => some (bareForm word "wfi" wfi)
      | _ => none
  | 0x1 => some (csrForm word "csrrw" (.register (rs1Of word)) csrrw)
  | 0x2 => some (csrForm word "csrrs" (.register (rs1Of word)) csrrs)
  | 0x3 => some (csrForm word "csrrc" (.register (rs1Of word)) csrrc)
  | 0x5 => some (csrForm word "csrrwi" (.decimal (rs1Of word).toNat) csrrwi)
  | 0x6 => some (csrForm word "csrrsi" (.decimal (rs1Of word).toNat) csrrsi)
  | 0x7 => some (csrForm word "csrrci" (.decimal (rs1Of word).toNat) csrrci)
  | _ => none

/-- The handler that `dispatch_instruction` calls for a word at `addr`; that of
the A extension aside. -/
def handlerOf (addr : BitVec 64) : Option Handler :=
  match Opcode.ofRaw (opcodeOf word) with
  | some .lui => some (upperForm word "lui" lui)
  | some .auipc => some (upperForm word "auipc" auipc)
  | some .jal => some (jumpForm word "jal" jal)
  | some .jalr => some (jumpRegisterForm word "jalr" jalr)
  | some .branch => branchHandler word addr
  | some .load => loadHandler word
  | some .store => storeHandler word
  | some .opImm => opImmHandler word
  | some .opImm32 => opImm32Handler word
  | some .op => if (decodeR word).funct7 = 0x01 then mOpHandler word else opHandler word
  | some .op32 => if (decodeR word).funct7 = 0x01 then mOp32Handler word else op32Handler word
  | some .miscMem => miscMemHandler word
  | some .system => systemHandler word
  | _ => none

end

section
variable {word : BitVec 32} {addr : BitVec 64} {h : Handler}

@[simp] theorem decode_r_funct3 (word : BitVec 32) : (decodeR word).funct3 = funct3Of word := rfl

theorem branch_runs (hh : branchHandler word addr = some h) (vm : Vm) :
    vm.onCpu (dispatchBranch · (decodeB word)) = h.run vm := by
  unfold branchHandler at hh
  split at hh <;> cases hh
  all_goals
    rename_i hf
    simp only [branchForm, dispatchBranch, decode_b_funct3, hf]

theorem load_runs (hh : loadHandler word = some h) (vm : Vm) :
    dispatchLoad vm (decodeI word) = h.run vm := by
  unfold loadHandler at hh
  split at hh <;> cases hh
  all_goals
    rename_i hf
    simp only [loadForm, dispatchLoad, decode_i_funct3, hf]

theorem store_runs (hh : storeHandler word = some h) (vm : Vm) :
    dispatchStore vm (decodeS word) = h.run vm := by
  unfold storeHandler at hh
  split at hh <;> cases hh
  all_goals
    rename_i hf
    simp only [storeForm, dispatchStore, decode_s_funct3, hf]

theorem op_imm_runs (hh : opImmHandler word = some h) (vm : Vm) :
    vm.onCpu (dispatchOpImm · (decodeI word)) = h.run vm := by
  unfold opImmHandler at hh
  split at hh
  all_goals
    rename_i hf
    simp only [Vm.onCpu, dispatchOpImm, decode_i_funct3, hf, sri]
    first
      | split at hh
        · rename_i hsra
          cases hh
          rw [if_pos hsra]
          rfl
        split at hh
        · rename_i hsra hsrl
          cases hh
          rw [if_neg hsra, if_pos hsrl]
          rfl
        · cases hh
      | cases hh
        rfl
      | cases hh

theorem op_imm32_runs (hh : opImm32Handler word = some h) (vm : Vm) :
    vm.onCpu (dispatchOpImm32 · (decodeI word)) = h.run vm := by
  unfold opImm32Handler at hh
  split at hh
  all_goals
    rename_i hf
    simp only [Vm.onCpu, dispatchOpImm32, decode_i_funct3, hf, sriw]
    first
      | split at hh
        · rename_i hsra
          cases hh
          rw [if_pos hsra]
          rfl
        split at hh
        · rename_i hsra hsrl
          cases hh
          rw [if_neg hsra, if_pos hsrl]
          rfl
        · cases hh
      | cases hh
        rfl
      | cases hh

theorem op_runs (hh : opHandler word = some h) (vm : Vm) :
    vm.onCpu (dispatchOp · (decodeR word)) = h.run vm := by
  unfold opHandler at hh
  split at hh
  all_goals
    rename_i hf
    simp only [Vm.onCpu, dispatchOp, decode_r_funct3, hf]
    first
      | split at hh
        · rename_i h0
          cases hh
          simp only [if_pos h0]
          rfl
        split at hh
        · rename_i h0 h32
          cases hh
          simp only [if_neg h0, if_pos h32]
          rfl
        · cases hh
      | cases hh
        rfl
      | cases hh

theorem m_op_runs (hh : mOpHandler word = some h) (vm : Vm) :
    vm.onCpu (dispatchMOp · (decodeR word)) = h.run vm := by
  unfold mOpHandler at hh
  split at hh <;> cases hh
  all_goals
    rename_i hf
    simp only [Vm.onCpu, dispatchMOp, decode_r_funct3, hf]
    rfl

theorem op32_runs (hh : op32Handler word = some h) (vm : Vm) :
    vm.onCpu (dispatchOp32 · (decodeR word)) = h.run vm := by
  unfold op32Handler at hh
  split at hh
  all_goals
    rename_i hf
    simp only [Vm.onCpu, dispatchOp32, decode_r_funct3, hf]
    first
      | split at hh
        · rename_i h0
          cases hh
          simp only [if_pos h0]
          rfl
        split at hh
        · rename_i h0 h32
          cases hh
          simp only [if_neg h0, if_pos h32]
          rfl
        · cases hh
      | cases hh
        rfl
      | cases hh

theorem m_op32_runs (hh : mOp32Handler word = some h) (vm : Vm) :
    vm.onCpu (dispatchMOp32 · (decodeR word)) = h.run vm := by
  unfold mOp32Handler at hh
  split at hh <;> cases hh
  all_goals
    rename_i hf
    simp only [Vm.onCpu, dispatchMOp32, decode_r_funct3, hf]
    rfl

theorem misc_mem_runs (hh : miscMemHandler word = some h) (vm : Vm) :
    dispatchMiscMem vm (decodeI word) = h.run vm := by
  unfold miscMemHandler at hh
  split at hh <;> cases hh
  all_goals
    rename_i hf
    simp only [bareForm, dispatchMiscMem, decode_i_funct3, hf]

theorem system_runs (hh : systemHandler word = some h) (vm : Vm) :
    dispatchSystem vm (decodeI word) = h.run vm := by
  unfold systemHandler at hh
  split at hh
  case h_1 =>
    rename_i hf
    rw [system_zero_eq vm hf]
    split at hh
    · rename_i hfence
      cases hh
      exact if_pos hfence
    · rename_i hfence
      rw [if_neg hfence]
      generalize (decodeI word).imm = imm at hh ⊢
      split at hh <;> cases hh
      all_goals rfl
  case h_8 => cases hh
  all_goals
    cases hh
    rename_i hf
    simp only [csrForm, dispatchSystem, decode_i_funct3, hf]

/-- The handler is the one that is called. -/
theorem handler_runs (hh : handlerOf word addr = some h) (vm : Vm) :
    dispatchInstruction vm word = h.run vm := by
  unfold handlerOf at hh
  cases hop : Opcode.ofRaw (opcodeOf word) with
  | none =>
    rw [hop] at hh
    cases hh
  | some opcode =>
    rw [hop] at hh
    rw [dispatch_word, hop]
    cases opcode with
    | lui | auipc | jal | jalr =>
      cases hh
      rfl
    | branch => exact branch_runs hh vm
    | load => exact load_runs hh vm
    | store => exact store_runs hh vm
    | opImm => exact op_imm_runs hh vm
    | opImm32 => exact op_imm32_runs hh vm
    | op =>
      dsimp only at hh ⊢
      split at hh
      · rename_i hm
        simp only [if_pos hm]
        exact m_op_runs hh vm
      · rename_i hm
        simp only [if_neg hm]
        exact op_runs hh vm
    | op32 =>
      dsimp only at hh ⊢
      split at hh
      · rename_i hm
        simp only [if_pos hm]
        exact m_op32_runs hh vm
      · rename_i hm
        simp only [if_neg hm]
        exact op32_runs hh vm
    | miscMem => exact misc_mem_runs hh vm
    | system => exact system_runs hh vm
    | amo => cases hh

end

end RiscvVm.Proofs
