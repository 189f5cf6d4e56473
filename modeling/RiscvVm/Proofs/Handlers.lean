import RiscvVm.Proofs.Encoding
import RiscvVm.Proofs.Execution

namespace RiscvVm.Proofs
open Rv64i

theorem shamt6_eq (x : BitVec 64) : shamt6 x = x.toNat % 64 := by
  rw [shamt6, BitVec.toNat_and]
  exact Nat.and_two_pow_sub_one_eq_mod x.toNat 6

theorem of_bool_decide (p : Prop) [Decidable p] : ofBool (decide p) = flag p := by
  unfold ofBool flag
  by_cases h : p <;> simp [h]

section
variable (cpu : Cpu)

/-- The handler that `dispatch_op` selects computes the operation. -/
theorem dispatch_op_eq {instruction : RType} (op : RegOp) (h3 : instruction.funct3 = op.funct3)
    (h7 : instruction.funct7 = op.funct7) :
    dispatchOp cpu instruction = registerOp op.eval cpu instruction := by
  cases op with
  | add => simp [dispatchOp, h3, h7, RegOp.funct3, RegOp.funct7, add, registerOp, eval_add]
  | sub => simp [dispatchOp, h3, h7, RegOp.funct3, RegOp.funct7, sub, registerOp, eval_sub]
  | sll => simp [dispatchOp, h3, RegOp.funct3, sll, registerOp, eval_sll, shamt6_eq]
  | slt =>
    simp [dispatchOp, h3, RegOp.funct3, slt, registerOp, RegOp.eval, BitVec.slt_eq_decide,
      of_bool_decide]
  | sltu =>
    simp [dispatchOp, h3, RegOp.funct3, sltu, registerOp, RegOp.eval, BitVec.ult_eq_decide,
      of_bool_decide]
  | xor => simp [dispatchOp, h3, RegOp.funct3, xorOp, registerOp, RegOp.eval]
  | srl =>
    simp [dispatchOp, h3, h7, RegOp.funct3, RegOp.funct7, srl, registerOp, eval_srl, shamt6_eq]
  | sra =>
    simp [dispatchOp, h3, h7, RegOp.funct3, RegOp.funct7, sra, registerOp, eval_sra, shamt6_eq]
  | or => simp [dispatchOp, h3, RegOp.funct3, orOp, registerOp, RegOp.eval]
  | and => simp [dispatchOp, h3, RegOp.funct3, andOp, registerOp, RegOp.eval]

/-- The handler that `dispatch_op_imm` selects computes the operation, with the
immediate for the second register. -/
theorem dispatch_op_imm_eq {instruction : IType} (op : ImmOp)
    (h3 : instruction.funct3 = op.funct3) :
    dispatchOpImm cpu instruction = immediateOp op.regOp.eval cpu instruction := by
  cases op with
  | addi => simp [dispatchOpImm, h3, ImmOp.funct3, addi, immediateOp, ImmOp.regOp, eval_add]
  | slti =>
    simp [dispatchOpImm, h3, ImmOp.funct3, slti, immediateOp, ImmOp.regOp, RegOp.eval, flag,
      BitVec.slt_eq_decide]
  | sltiu =>
    simp [dispatchOpImm, h3, ImmOp.funct3, sltiu, immediateOp, ImmOp.regOp, RegOp.eval, flag,
      BitVec.ult_eq_decide]
  | xori => simp [dispatchOpImm, h3, ImmOp.funct3, xori, immediateOp, ImmOp.regOp, RegOp.eval]
  | ori => simp [dispatchOpImm, h3, ImmOp.funct3, ori, immediateOp, ImmOp.regOp, RegOp.eval]
  | andi => simp [dispatchOpImm, h3, ImmOp.funct3, andi, immediateOp, ImmOp.regOp, RegOp.eval]

end

/-- The immediate of a shift is small enough to be positive. -/
theorem shift_imm (op : ShiftOp) (shamt : BitVec 6) :
    (op.funct6 ++ shamt).signExtend 64 = (op.funct6 ++ shamt).setWidth 64 := by
  apply BitVec.signExtend_eq_setWidth_of_msb_false
  rw [BitVec.msb_append]
  cases op <;> rfl

theorem shift_amount (op : ShiftOp) (shamt : BitVec 6) :
    shamt6 ((op.funct6 ++ shamt).signExtend 64) = (shamt.setWidth 64).toNat % 64 := by
  have hlow : ∀ x : BitVec 64, x.toNat % 64 = (x.setWidth 6).toNat :=
    fun x => (BitVec.toNat_setWidth 6 x).symm
  rw [shamt6_eq, hlow, hlow, shift_imm, BitVec.setWidth_setWidth_of_le _ (by omega),
    BitVec.setWidth_append_eq_right, BitVec.setWidth_setWidth_of_le _ (by omega), BitVec.setWidth_eq]

theorem shift_kind (op : ShiftOp) (shamt : BitVec 6) :
    (op.funct6 ++ shamt).signExtend 64 >>> 6 = op.funct6.setWidth 64 := by
  rw [shift_imm]
  apply BitVec.eq_of_getLsbD_eq
  intro i hi
  simp only [BitVec.getLsbD_ushiftRight, BitVec.getLsbD_setWidth, BitVec.getLsbD_append]
  grind

/-- The shifts of `dispatch_op_imm`, told apart by the top of the immediate. -/
theorem dispatch_shift_eq (cpu : Cpu) {instruction : IType} (op : ShiftOp) (shamt : BitVec 6)
    (h3 : instruction.funct3 = op.funct3)
    (himm : instruction.imm = (op.funct6 ++ shamt).signExtend 64) :
    dispatchOpImm cpu instruction = cpuWriteReg cpu instruction.rd
      (op.regOp.eval (cpuReadReg cpu instruction.rs1) (shamt.setWidth 64)) := by
  have hamount := shift_amount op shamt
  have hkind := shift_kind op shamt
  rw [← himm] at hamount hkind
  cases op with
  | slli =>
    simp [dispatchOpImm, h3, ShiftOp.funct3, slli, immediateOp, ShiftOp.regOp, eval_sll, hamount]
  | srli =>
    simp [dispatchOpImm, h3, ShiftOp.funct3, sri, hkind, ShiftOp.funct6, srli, immediateOp,
      ShiftOp.regOp, eval_srl, hamount]
  | srai =>
    simp [dispatchOpImm, h3, ShiftOp.funct3, sri, hkind, ShiftOp.funct6, srai, immediateOp,
      ShiftOp.regOp, eval_sra, hamount]

theorem branch_if_eq (cpu : Cpu) (instruction : BType) {taken : BitVec 64 → BitVec 64 → Bool}
    {p : Prop} [Decidable p]
    (h : taken (cpuReadReg cpu instruction.rs1) (cpuReadReg cpu instruction.rs2) = true ↔ p) :
    branchIf taken cpu instruction =
      if p then { cpu with pc := cpu.pc + instruction.imm, pcWritten := true } else cpu := by
  unfold branchIf
  by_cases hp : p
  · rw [if_pos (h.mpr hp), if_pos hp]
  · rw [if_neg (mt h.mp hp), if_neg hp]

theorem dispatch_branch_eq (cpu : Cpu) {instruction : BType} (cond : Cond)
    (h3 : instruction.funct3 = cond.funct3) : dispatchBranch cpu instruction =
      if cond.Holds (cpuReadReg cpu instruction.rs1) (cpuReadReg cpu instruction.rs2) then
        { cpu with pc := cpu.pc + instruction.imm, pcWritten := true }
      else cpu := by
  unfold dispatchBranch
  rw [h3]
  cases cond with
  | eq => exact branch_if_eq cpu instruction beq_iff_eq
  | ne => exact branch_if_eq cpu instruction bne_iff_ne
  | lt => exact branch_if_eq cpu instruction BitVec.slt_iff_toInt_lt
  | ge =>
    refine branch_if_eq cpu instruction ?_
    rw [BitVec.slt_eq_decide, Bool.not_eq_true', decide_eq_false_iff_not, Int.not_lt]
    exact Iff.rfl
  | ltu => exact branch_if_eq cpu instruction BitVec.ult_iff_toNat_lt
  | geu =>
    refine branch_if_eq cpu instruction ?_
    rw [BitVec.ult_eq_decide, Bool.not_eq_true', decide_eq_false_iff_not, Nat.not_lt]
    exact Iff.rfl

def loadWidth : LoadOp → Width
  | .lb | .lbu => .w8
  | .lh | .lhu => .w16
  | .lw | .lwu => .w32
  | .ld => .w64

def storeWidth : StoreOp → Width
  | .sb => .w8
  | .sh => .w16
  | .sw => .w32
  | .sd => .w64

theorem load_width_bytes (op : LoadOp) : (loadWidth op).bytes = op.bytes := by cases op <;> rfl

theorem store_width_bytes (op : StoreOp) : (storeWidth op).bytes = op.bytes := by cases op <;> rfl

/-- The sign extension of a loaded value is that of its bytes. -/
theorem load_extend (m : BitVec 64 → BitVec 8) (p : BitVec 64) {n : Nat} (hn : 0 < n) (h4 : n ≤ 4) :
    signExtend ((ByteMap.read 64 m p n).setWidth 32) (8 * n) =
      (ByteMap.read (8 * n) m p n).signExtend 64 := by
  have hread := ByteMap.read_set_width (w := 8 * n) (u := 32) m p (Nat.le_refl (8 * n))
  rw [ByteMap.read_set_width m p (by omega), ← hread, sign_extend_field _ (by omega) (by omega)]

/-- What `dispatch_load` makes of the bytes it reads. -/
def loaded (op : LoadOp) (m : BitVec 64 → BitVec 8) (p : BitVec 64) : BitVec 64 :=
  if op.signed then (ByteMap.read (8 * op.bytes) m p op.bytes).signExtend 64
  else (ByteMap.read (8 * op.bytes) m p op.bytes).setWidth 64

theorem load_op_eq {vm : Vm} {instruction : IType} {width : Width} {extend : BitVec 64 → BitVec 64}
    {bus : Bus} {p : BitVec 64}
    (ht : translateAddress vm.cpu vm.bus (instruction.imm + cpuReadReg vm.cpu instruction.rs1) .load =
      (bus, .ok p)) (hram : InRam p width.bytes) :
    loadOp width extend vm instruction =
      { cpu := cpuWriteReg vm.cpu instruction.rd
          (extend (ByteMap.read 64 bus.ram.mem (p - memBase) width.bytes))
        bus := bus } := by
  unfold loadOp cpuLoad
  dsimp only
  rw [ht]
  dsimp only
  rw [bus_read_in_ram width bus hram]

theorem dispatch_load_eq {vm : Vm} {instruction : IType} (op : LoadOp)
    (h3 : instruction.funct3 = op.funct3) {bus : Bus} {p : BitVec 64}
    (ht : translateAddress vm.cpu vm.bus (instruction.imm + cpuReadReg vm.cpu instruction.rs1) .load =
      (bus, .ok p)) (hram : InRam p op.bytes) :
    dispatchLoad vm instruction =
      { cpu := cpuWriteReg vm.cpu instruction.rd (loaded op bus.ram.mem (p - memBase))
        bus := bus } := by
  unfold dispatchLoad
  rw [h3]
  have hload : ∀ extend, extend (ByteMap.read 64 bus.ram.mem (p - memBase) op.bytes) =
      loaded op bus.ram.mem (p - memBase) → loadOp (loadWidth op) extend vm instruction =
      { cpu := cpuWriteReg vm.cpu instruction.rd (loaded op bus.ram.mem (p - memBase))
        bus := bus } := by
    intro extend he
    rw [← load_width_bytes op] at hram he
    rw [load_op_eq ht hram, he]
  cases op with
  | lb => exact hload _ (load_extend _ _ (by decide) (by decide))
  | lh => exact hload _ (load_extend _ _ (by decide) (by decide))
  | lw => exact hload _ (load_extend _ _ (by decide) (by decide))
  | ld => exact hload _ (BitVec.signExtend_eq _).symm
  | lbu => exact hload _ (ByteMap.read_set_width _ _ (Nat.le_refl _)).symm
  | lhu => exact hload _ (ByteMap.read_set_width _ _ (Nat.le_refl _)).symm
  | lwu => exact hload _ (ByteMap.read_set_width _ _ (Nat.le_refl _)).symm

/-- The bus after `n` bytes of a value have gone to RAM at `p`. -/
def stored (bus : Bus) (p value : BitVec 64) (n : Nat) : Bus :=
  { bus with ram := { mem := ByteMap.write bus.ram.mem (p - memBase) value n } }

theorem dispatch_store_eq {vm : Vm} {instruction : SType} (op : StoreOp)
    (h3 : instruction.funct3 = op.funct3) {bus : Bus} {p : BitVec 64}
    (ht : translateAddress vm.cpu vm.bus (cpuReadReg vm.cpu instruction.rs1 + instruction.imm) .store =
      (bus, .ok p)) (hram : InRam p op.bytes) :
    dispatchStore vm instruction =
      { cpu := cpuInvalidateReservation vm.cpu p (BitVec.ofNat 8 op.bytes)
        bus := stored bus p (cpuReadReg vm.cpu instruction.rs2) op.bytes } := by
  have hstore : storeOp (storeWidth op) vm instruction =
      { cpu := cpuInvalidateReservation vm.cpu p (BitVec.ofNat 8 op.bytes)
        bus := stored bus p (cpuReadReg vm.cpu instruction.rs2) op.bytes } := by
    unfold storeOp cpuStore
    dsimp only
    rw [ht]
    dsimp only
    rw [bus_write_in_ram _ bus _ (by rwa [store_width_bytes]), store_width_bytes]
    rfl
  rw [← hstore]
  unfold dispatchStore
  rw [h3]
  cases op <;> rfl

section
variable (vm : Vm) (rd rs1 rs2 : BitVec 5)

theorem dispatch_lui (imm : BitVec 20) : dispatchInstruction vm (encode (.lui rd imm)) =
    vm.onCpu (cpuWriteReg · rd (wrap (imm.toInt * 2 ^ 12))) := by
  have hop : Opcode.ofRaw 0b0110111 = some .lui := rfl
  unfold encode
  rw [dispatch_word, opcode_u, hop, wrap_offset]
  simp only [decode_u, lui]

theorem dispatch_auipc (imm : BitVec 20) : dispatchInstruction vm (encode (.auipc rd imm)) =
    vm.onCpu (cpuWriteReg · rd (vm.cpu.pc + wrap (imm.toInt * 2 ^ 12))) := by
  have hop : Opcode.ofRaw 0b0010111 = some .auipc := rfl
  unfold encode
  rw [dispatch_word, opcode_u, hop, wrap_offset]
  simp only [decode_u, auipc, Vm.onCpu]

theorem dispatch_jal (imm : BitVec 20) : dispatchInstruction vm (encode (.jal rd imm)) =
    vm.onCpu fun cpu => { cpuWriteReg cpu rd (vm.cpu.pc + 4) with
      pc := vm.cpu.pc + wrap (imm.toInt * 2), pcWritten := true } := by
  have hop : Opcode.ofRaw 0b1101111 = some .jal := rfl
  unfold encode
  rw [dispatch_word, opcode_j, hop, show wrap (imm.toInt * 2) = _ from wrap_offset imm 1]
  simp only [decode_j, jal_eq, Vm.onCpu]

theorem dispatch_jalr (imm : BitVec 12) : dispatchInstruction vm (encode (.jalr rd rs1 imm)) =
    vm.onCpu fun cpu => { cpuWriteReg cpu rd (vm.cpu.pc + 4) with
      pc := wrap ((cpuReadReg vm.cpu rs1 + wrap imm.toInt).toNat / 2 * 2), pcWritten := true } := by
  have hop : Opcode.ofRaw 0b1100111 = some .jalr := rfl
  unfold encode
  rw [dispatch_word, opcode_i, hop, wrap_even, BitVec.add_comm (cpuReadReg vm.cpu rs1)]
  simp only [decode_i, jalr, Vm.onCpu]
  rfl

theorem dispatch_branch (cond : Cond) (imm : BitVec 12) :
    dispatchInstruction vm (encode (.branch cond rs1 rs2 imm)) =
      vm.onCpu fun cpu =>
        if cond.Holds (cpuReadReg vm.cpu rs1) (cpuReadReg vm.cpu rs2) then
          { cpu with pc := vm.cpu.pc + wrap (imm.toInt * 2), pcWritten := true }
        else cpu := by
  have hop : Opcode.ofRaw 0b1100011 = some .branch := rfl
  unfold encode
  rw [dispatch_word, opcode_b, hop, show wrap (imm.toInt * 2) = _ from wrap_offset imm 1]
  simp only [decode_b, Vm.onCpu]
  rw [dispatch_branch_eq vm.cpu cond rfl]

theorem dispatch_immediate (op : ImmOp) (imm : BitVec 12) :
    dispatchInstruction vm (encode (.immediate op rd rs1 imm)) = vm.onCpu
      (cpuWriteReg · rd (op.regOp.eval (cpuReadReg vm.cpu rs1) (wrap imm.toInt))) := by
  have hop : Opcode.ofRaw 0b0010011 = some .opImm := rfl
  unfold encode
  rw [dispatch_word, opcode_i, hop]
  simp only [decode_i, Vm.onCpu]
  rw [dispatch_op_imm_eq vm.cpu op rfl]
  rfl

theorem dispatch_shift (op : ShiftOp) (shamt : BitVec 6) :
    dispatchInstruction vm (encode (.shift op rd rs1 shamt)) = vm.onCpu
      (cpuWriteReg · rd (op.regOp.eval (cpuReadReg vm.cpu rs1) (shamt.setWidth 64))) := by
  have hop : Opcode.ofRaw 0b0010011 = some .opImm := rfl
  unfold encode
  rw [dispatch_word, opcode_i, hop]
  simp only [decode_i, Vm.onCpu]
  rw [dispatch_shift_eq vm.cpu op shamt rfl rfl]

theorem dispatch_register (op : RegOp) :
    dispatchInstruction vm (encode (.register op rd rs1 rs2)) = vm.onCpu
      (cpuWriteReg · rd (op.eval (cpuReadReg vm.cpu rs1) (cpuReadReg vm.cpu rs2))) := by
  have hop : Opcode.ofRaw 0b0110011 = some .op := rfl
  have h7 : op.funct7 ≠ 0x01 := by cases op <;> decide
  unfold encode
  rw [dispatch_word, opcode_r, hop]
  simp only [decode_r, h7, if_false, Vm.onCpu]
  rw [dispatch_op_eq vm.cpu op rfl rfl]
  rfl

theorem dispatch_load (op : LoadOp) (imm : BitVec 12) {bus : Bus} {p : BitVec 64}
    (ht : translateAddress vm.cpu vm.bus (cpuReadReg vm.cpu rs1 + wrap imm.toInt) .load =
      (bus, .ok p)) (hram : InRam p op.bytes) :
    dispatchInstruction vm (encode (.load op rd rs1 imm)) =
      { cpu := cpuWriteReg vm.cpu rd (loaded op bus.ram.mem (p - memBase)), bus := bus } := by
  have hop : Opcode.ofRaw 0b0000011 = some .load := rfl
  rw [BitVec.add_comm, wrap_imm] at ht
  unfold encode
  rw [dispatch_word, opcode_i, hop]
  simp only [decode_i]
  refine dispatch_load_eq op ?_ ht hram
  rfl

theorem dispatch_store (op : StoreOp) (imm : BitVec 12) {bus : Bus} {p : BitVec 64}
    (ht : translateAddress vm.cpu vm.bus (cpuReadReg vm.cpu rs1 + wrap imm.toInt) .store =
      (bus, .ok p)) (hram : InRam p op.bytes) :
    dispatchInstruction vm (encode (.store op rs1 rs2 imm)) =
      { cpu := cpuInvalidateReservation vm.cpu p (BitVec.ofNat 8 op.bytes)
        bus := stored bus p (cpuReadReg vm.cpu rs2) op.bytes } := by
  have hop : Opcode.ofRaw 0b0100011 = some .store := rfl
  rw [wrap_imm] at ht
  unfold encode
  rw [dispatch_word, opcode_s, hop]
  simp only [decode_s]
  refine dispatch_store_eq op ?_ ht hram
  rfl

end

end RiscvVm.Proofs
