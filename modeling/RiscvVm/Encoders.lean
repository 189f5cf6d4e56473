import RiscvVm.Decoding

/-!
The encoders of the tests, `enc_r` to `enc_j` and `encode_amo`. Their fields are
of type `uint8_t`, the immediates are `int32_t` and for the U format `uint32_t`.
-/

namespace RiscvVm

def encR (funct7 rs2 rs1 funct3 rd opcode : BitVec 8) : BitVec 32 :=
  ((funct7 &&& 0x7F).setWidth 32 <<< 25) |||
  ((rs2 &&& 0x1F).setWidth 32 <<< 20) |||
  ((rs1 &&& 0x1F).setWidth 32 <<< 15) |||
  ((funct3 &&& 0x07).setWidth 32 <<< 12) |||
  ((rd &&& 0x1F).setWidth 32 <<< 7) |||
  (opcode &&& 0x7F).setWidth 32

def encI (imm : BitVec 32) (rs1 funct3 rd opcode : BitVec 8) : BitVec 32 :=
  ((imm &&& 0xFFF) <<< 20) |||
  ((rs1 &&& 0x1F).setWidth 32 <<< 15) |||
  ((funct3 &&& 0x07).setWidth 32 <<< 12) |||
  ((rd &&& 0x1F).setWidth 32 <<< 7) |||
  (opcode &&& 0x7F).setWidth 32

def encS (imm : BitVec 32) (rs2 rs1 funct3 opcode : BitVec 8) : BitVec 32 :=
  let uimm := imm &&& 0xFFF
  ((uimm >>> 5) <<< 25) |||
  ((rs2 &&& 0x1F).setWidth 32 <<< 20) |||
  ((rs1 &&& 0x1F).setWidth 32 <<< 15) |||
  ((funct3 &&& 0x07).setWidth 32 <<< 12) |||
  ((uimm &&& 0x1F) <<< 7) |||
  (opcode &&& 0x7F).setWidth 32

def encB (imm : BitVec 32) (rs2 rs1 funct3 opcode : BitVec 8) : BitVec 32 :=
  let uimm := imm &&& 0x1FFF
  (((uimm >>> 12) &&& 0x1) <<< 31) |||
  (((uimm >>> 5) &&& 0x3F) <<< 25) |||
  ((rs2 &&& 0x1F).setWidth 32 <<< 20) |||
  ((rs1 &&& 0x1F).setWidth 32 <<< 15) |||
  ((funct3 &&& 0x07).setWidth 32 <<< 12) |||
  (((uimm >>> 1) &&& 0x0F) <<< 8) |||
  (((uimm >>> 11) &&& 0x1) <<< 7) |||
  (opcode &&& 0x7F).setWidth 32

def encU (imm20 : BitVec 32) (rd opcode : BitVec 8) : BitVec 32 :=
  ((imm20 &&& 0xFFFFF) <<< 12) |||
  ((rd &&& 0x1F).setWidth 32 <<< 7) |||
  (opcode &&& 0x7F).setWidth 32

def encJ (imm : BitVec 32) (rd opcode : BitVec 8) : BitVec 32 :=
  let uimm := imm &&& 0x1FFFFF
  (((uimm >>> 20) &&& 0x1) <<< 31) |||
  (((uimm >>> 1) &&& 0x3FF) <<< 21) |||
  (((uimm >>> 11) &&& 0x1) <<< 20) |||
  (((uimm >>> 12) &&& 0xFF) <<< 12) |||
  ((rd &&& 0x1F).setWidth 32 <<< 7) |||
  (opcode &&& 0x7F).setWidth 32

/-- No field is masked here. -/
def encodeAmo (funct5 aq rl rs2 rs1 funct3 rd : BitVec 8) : BitVec 32 :=
  (funct5.setWidth 32 <<< 27) |||
  (aq.setWidth 32 <<< 26) |||
  (rl.setWidth 32 <<< 25) |||
  (rs2.setWidth 32 <<< 20) |||
  (rs1.setWidth 32 <<< 15) |||
  (funct3.setWidth 32 <<< 12) |||
  (rd.setWidth 32 <<< 7) |||
  0x2F

end RiscvVm
