import RiscvVm.Proofs.Instructions
import RiscvVm.Lib.Rv64i

namespace RiscvVm.Proofs
open Rv64i

section
variable (funct7 : BitVec 7) (rs2 rs1 : BitVec 5) (funct3 : BitVec 3) (rd : BitVec 5)
  (opcode : BitVec 7)

theorem opcode_r : opcodeOf (rFormat funct7 rs2 rs1 funct3 rd opcode) = opcode := by
  simp (disch := omega) only [opcodeOf, rFormat, BitVec.extractLsb'_cast,
    BitVec.extractLsb'_append_eq_of_add_le, BitVec.extractLsb'_eq_self]

theorem decode_r : decodeR (rFormat funct7 rs2 rs1 funct3 rd opcode) =
    { rd := rd
      funct3 := funct3
      rs1 := rs1
      rs2 := rs2
      funct7 := funct7
      opcode := opcode
      raw := rFormat funct7 rs2 rs1 funct3 rd opcode } := by
  simp only [decodeR, opcode_r, RType.mk.injEq, and_true]
  simp (disch := omega) only [field, rFormat, BitVec.extractLsb'_cast,
    BitVec.extractLsb'_append_eq_of_add_le, BitVec.extractLsb'_append_eq_of_le, Nat.reduceSub,
    BitVec.extractLsb'_eq_self, and_self]

theorem opcode_i (imm : BitVec 12) : opcodeOf (iFormat imm rs1 funct3 rd opcode) = opcode := by
  simp (disch := omega) only [opcodeOf, iFormat, BitVec.extractLsb'_cast,
    BitVec.extractLsb'_append_eq_of_add_le, BitVec.extractLsb'_eq_self]

theorem decode_i (imm : BitVec 12) : decodeI (iFormat imm rs1 funct3 rd opcode) =
    { rd := rd
      funct3 := funct3
      rs1 := rs1
      opcode := opcode
      imm := imm.signExtend 64
      raw := iFormat imm rs1 funct3 rd opcode } := by
  have himm : field (iFormat imm rs1 funct3 rd opcode) 20 12 = imm := by
    simp (disch := omega) only [field, iFormat, BitVec.extractLsb'_cast,
      BitVec.extractLsb'_append_eq_of_le, Nat.reduceSub, BitVec.extractLsb'_eq_self]
  simp only [decodeI, opcode_i, himm, sign_extend_field imm (by omega) (by omega), IType.mk.injEq,
    and_true]
  simp (disch := omega) only [field, iFormat, BitVec.extractLsb'_cast,
    BitVec.extractLsb'_append_eq_of_add_le, BitVec.extractLsb'_append_eq_of_le, Nat.reduceSub,
    BitVec.extractLsb'_eq_self, and_self]

theorem opcode_s (imm : BitVec 12) : opcodeOf (sFormat imm rs2 rs1 funct3 opcode) = opcode := by
  simp (disch := omega) only [opcodeOf, sFormat, BitVec.extractLsb'_cast,
    BitVec.extractLsb'_append_eq_of_add_le, BitVec.extractLsb'_eq_self]

theorem decode_s (imm : BitVec 12) : decodeS (sFormat imm rs2 rs1 funct3 opcode) =
    { funct3 := funct3
      rs1 := rs1
      rs2 := rs2
      opcode := opcode
      imm := imm.signExtend 64
      raw := sFormat imm rs2 rs1 funct3 opcode } := by
  have himm : (field (sFormat imm rs2 rs1 funct3 opcode) 7 5).setWidth 32 |||
      ((field (sFormat imm rs2 rs1 funct3 opcode) 25 7).setWidth 32 <<< 5) = imm.setWidth 32 := by
    simp (disch := omega) only [field, sFormat, BitVec.extractLsb'_cast,
      BitVec.extractLsb'_append_eq_of_add_le, BitVec.extractLsb'_append_eq_of_le]
    apply BitVec.eq_of_getLsbD_eq
    intro i hi
    simp only [BitVec.getLsbD_or, BitVec.getLsbD_shiftLeft, BitVec.getLsbD_setWidth,
      BitVec.getLsbD_extractLsb']
    grind
  simp only [decodeS, opcode_s, himm, sign_extend_field imm (by omega) (by omega), SType.mk.injEq,
    and_true]
  simp (disch := omega) only [field, sFormat, BitVec.extractLsb'_cast,
    BitVec.extractLsb'_append_eq_of_add_le, BitVec.extractLsb'_append_eq_of_le, Nat.reduceSub,
    BitVec.extractLsb'_eq_self, and_self]

theorem opcode_b (imm : BitVec 12) : opcodeOf (bFormat imm rs2 rs1 funct3 opcode) = opcode := by
  simp (disch := omega) only [opcodeOf, bFormat, BitVec.extractLsb'_cast,
    BitVec.extractLsb'_append_eq_of_add_le, BitVec.extractLsb'_eq_self]

theorem decode_b (imm : BitVec 12) : decodeB (bFormat imm rs2 rs1 funct3 opcode) =
    { funct3 := funct3
      rs1 := rs1
      rs2 := rs2
      opcode := opcode
      imm := (imm ++ 0#1).signExtend 64
      raw := bFormat imm rs2 rs1 funct3 opcode } := by
  have himm : ((field (bFormat imm rs2 rs1 funct3 opcode) 8 4).setWidth 32 <<< 1) |||
      ((field (bFormat imm rs2 rs1 funct3 opcode) 25 6).setWidth 32 <<< 5) |||
      ((field (bFormat imm rs2 rs1 funct3 opcode) 7 1).setWidth 32 <<< 11) |||
      ((field (bFormat imm rs2 rs1 funct3 opcode) 31 1).setWidth 32 <<< 12) =
      (imm ++ 0#1).setWidth 32 := by
    simp (disch := omega) only [field, bFormat, BitVec.extractLsb'_cast,
      BitVec.extractLsb'_append_eq_of_add_le, BitVec.extractLsb'_append_eq_of_le]
    apply BitVec.eq_of_getLsbD_eq
    intro i hi
    simp only [BitVec.getLsbD_or, BitVec.getLsbD_shiftLeft, BitVec.getLsbD_setWidth,
      BitVec.getLsbD_append, BitVec.getLsbD_extractLsb', BitVec.getLsbD_zero]
    grind
  simp only [decodeB, opcode_b, himm, sign_extend_field (imm ++ 0#1) (by omega) (by omega),
    BType.mk.injEq, and_true]
  simp (disch := omega) only [field, bFormat, BitVec.extractLsb'_cast,
    BitVec.extractLsb'_append_eq_of_add_le, BitVec.extractLsb'_append_eq_of_le, Nat.reduceSub,
    BitVec.extractLsb'_eq_self, and_self]

theorem opcode_u (imm : BitVec 20) : opcodeOf (uFormat imm rd opcode) = opcode := by
  simp (disch := omega) only [opcodeOf, uFormat, BitVec.extractLsb'_cast,
    BitVec.extractLsb'_append_eq_of_add_le, BitVec.extractLsb'_eq_self]

theorem decode_u (imm : BitVec 20) : decodeU (uFormat imm rd opcode) =
    { rd := rd
      opcode := opcode
      imm := (imm ++ 0#12).signExtend 64
      raw := uFormat imm rd opcode } := by
  have himm : uFormat imm rd opcode &&& 0xFFFFF000 = (imm ++ 0#12).setWidth 32 := by
    have hmask : (0xFFFFF000#32) = (BitVec.allOnes 20 ++ 0#12).setWidth 32 := rfl
    rw [show (0xFFFFF000 : BitVec 32) = 0xFFFFF000#32 from rfl, hmask]
    apply BitVec.eq_of_getLsbD_eq
    intro i hi
    simp only [uFormat, BitVec.getLsbD_and, BitVec.getLsbD_cast, BitVec.getLsbD_setWidth,
      BitVec.getLsbD_append, BitVec.getLsbD_allOnes, BitVec.getLsbD_zero]
    grind
  simp only [decodeU, opcode_u, himm, sign_extend_field (imm ++ 0#12) (by omega) (by omega),
    UType.mk.injEq, and_true]
  simp (disch := omega) only [field, uFormat, BitVec.extractLsb'_cast,
    BitVec.extractLsb'_append_eq_of_add_le, BitVec.extractLsb'_append_eq_of_le, Nat.reduceSub,
    BitVec.extractLsb'_eq_self]

theorem opcode_j (imm : BitVec 20) : opcodeOf (jFormat imm rd opcode) = opcode := by
  simp (disch := omega) only [opcodeOf, jFormat, BitVec.extractLsb'_cast,
    BitVec.extractLsb'_append_eq_of_add_le, BitVec.extractLsb'_eq_self]

theorem decode_j (imm : BitVec 20) : decodeJ (jFormat imm rd opcode) =
    { rd := rd
      opcode := opcode
      imm := (imm ++ 0#1).signExtend 64
      raw := jFormat imm rd opcode } := by
  have himm : ((field (jFormat imm rd opcode) 21 10).setWidth 32 <<< 1) |||
      ((field (jFormat imm rd opcode) 20 1).setWidth 32 <<< 11) |||
      ((field (jFormat imm rd opcode) 12 8).setWidth 32 <<< 12) |||
      ((field (jFormat imm rd opcode) 31 1).setWidth 32 <<< 20) = (imm ++ 0#1).setWidth 32 := by
    simp (disch := omega) only [field, jFormat, BitVec.extractLsb'_cast,
      BitVec.extractLsb'_append_eq_of_add_le, BitVec.extractLsb'_append_eq_of_le]
    apply BitVec.eq_of_getLsbD_eq
    intro i hi
    simp only [BitVec.getLsbD_or, BitVec.getLsbD_shiftLeft, BitVec.getLsbD_setWidth,
      BitVec.getLsbD_append, BitVec.getLsbD_extractLsb', BitVec.getLsbD_zero]
    grind
  simp only [decodeJ, opcode_j, himm, sign_extend_field (imm ++ 0#1) (by omega) (by omega),
    JType.mk.injEq, and_true]
  simp (disch := omega) only [field, jFormat, BitVec.extractLsb'_cast,
    BitVec.extractLsb'_append_eq_of_add_le, BitVec.extractLsb'_append_eq_of_le, Nat.reduceSub,
    BitVec.extractLsb'_eq_self]

end

end RiscvVm.Proofs
