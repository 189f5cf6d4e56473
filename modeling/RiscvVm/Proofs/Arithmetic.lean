import RiscvVm.Machine
import RiscvVm.Lib.Rv64im
import RiscvVm.Proofs.Handlers

namespace RiscvVm.Proofs
open Rv64im

theorem shamt5_eq (x : BitVec 64) : shamt5 x = x.toNat % 32 := by
  rw [shamt5, BitVec.toNat_and]
  exact Nat.and_two_pow_sub_one_eq_mod x.toNat 5

theorem shamt4_eq (x : BitVec 64) : (x &&& 0xF).toNat = x.toNat % 16 := by
  rw [BitVec.toNat_and]
  exact Nat.and_two_pow_sub_one_eq_mod x.toNat 4

theorem sign_extend_word (x : BitVec 32) : signExtend x 32 = x.signExtend 64 := by
  simpa using sign_extend_field x (by decide) (by decide)

/-- Two writes to one register leave the same machine only when they write the
same value or nothing. -/
theorem write_reg_inj {cpu : Cpu} {rd : BitVec 5} {v v' : BitVec 64} :
    cpuWriteReg cpu rd v = cpuWriteReg cpu rd v' ↔ rd = 0 ∨ v = v' := by
  constructor
  · intro h
    exact write_reg_regs_inj.mp (congrArg Cpu.regs h)
  · rintro (rfl | rfl)
    · rfl
    · rfl

/-- The value SRAW writes: the shift amount has four bits. -/
def srawValue (x y : BitVec 64) : BitVec 64 :=
  ((low x).sshiftRight (y.toNat % 16)).signExtend 64

section
variable (cpu : Cpu) {instruction : RType}

/-- The handler that `dispatch_op_32` selects computes the operation, but for
SRAW. -/
theorem dispatch_op32_eq (op : WordOp) (hop : op ≠ .sraw) (h3 : instruction.funct3 = op.funct3)
    (h7 : instruction.funct7 = op.funct7) :
    dispatchOp32 cpu instruction = registerOp op.eval cpu instruction := by
  cases op with
  | addw =>
    simp [dispatchOp32, h3, h7, WordOp.funct3, WordOp.funct7, addw, registerOp, wordOp,
      sign_extend_word, eval_addw, low]
  | subw =>
    simp [dispatchOp32, h3, h7, WordOp.funct3, WordOp.funct7, subw, registerOp, wordOp,
      sign_extend_word, eval_subw, low]
  | sllw =>
    simp [dispatchOp32, h3, WordOp.funct3, sllw, registerOp, sign_extend_word, eval_sllw, low,
      shamt5_eq]
  | srlw =>
    simp [dispatchOp32, h3, h7, WordOp.funct3, WordOp.funct7, srlw, registerOp, sign_extend_word,
      eval_srlw, low, shamt5_eq]
  | sraw => exact absurd rfl hop

theorem dispatch_sraw_eq (h3 : instruction.funct3 = WordOp.sraw.funct3)
    (h7 : instruction.funct7 = WordOp.sraw.funct7) :
    dispatchOp32 cpu instruction = registerOp srawValue cpu instruction := by
  have h4 (x : BitVec 64) : (x &&& 15#64).toNat = x.toNat % 16 := shamt4_eq x
  simp [dispatchOp32, h3, h7, WordOp.funct3, WordOp.funct7, sraw, registerOp, sign_extend_word,
    srawValue, low, h4]

end

/-- The immediate of a word shift is small enough to be positive. -/
theorem word_shift_imm (op : WordShift) (shamt : BitVec 5) :
    (op.wordOp.funct7 ++ shamt).signExtend 64 = (op.wordOp.funct7 ++ shamt).setWidth 64 := by
  apply BitVec.signExtend_eq_setWidth_of_msb_false
  rw [BitVec.msb_append]
  cases op <;> rfl

theorem word_shift_amount (op : WordShift) (shamt : BitVec 5) :
    shamt5 ((op.wordOp.funct7 ++ shamt).signExtend 64) = (shamt.setWidth 64).toNat % 32 := by
  have hlow : ∀ x : BitVec 64, x.toNat % 32 = (x.setWidth 5).toNat :=
    fun x => (BitVec.toNat_setWidth 5 x).symm
  rw [shamt5_eq, hlow, hlow, word_shift_imm, BitVec.setWidth_setWidth_of_le _ (by omega),
    BitVec.setWidth_append_eq_right, BitVec.setWidth_setWidth_of_le _ (by omega), BitVec.setWidth_eq]

/-- Bit 5 of the immediate, which is the lowest of `funct7`, is zero, so the
test of the six bits above it tells the shifts apart. -/
theorem word_shift_kind (op : WordShift) (shamt : BitVec 5) :
    (op.wordOp.funct7 ++ shamt).signExtend 64 >>> 6 = op.wordOp.funct7.setWidth 64 >>> 1 := by
  rw [word_shift_imm]
  apply BitVec.eq_of_getLsbD_eq
  intro i hi
  simp only [BitVec.getLsbD_ushiftRight, BitVec.getLsbD_setWidth, BitVec.getLsbD_append]
  grind

section
variable (cpu : Cpu) {instruction : IType}

theorem dispatch_addiw_eq (h3 : instruction.funct3 = 0) :
    dispatchOpImm32 cpu instruction = immediateOp WordOp.addw.eval cpu instruction := by
  simp [dispatchOpImm32, h3, addiw, immediateOp, wordOp, sign_extend_word, eval_addw, low]

/-- The shifts of `dispatch_op_imm_32`, told apart by the top of the immediate. -/
theorem dispatch_word_shift_eq (op : WordShift) (shamt : BitVec 5)
    (h3 : instruction.funct3 = op.wordOp.funct3)
    (himm : instruction.imm = (op.wordOp.funct7 ++ shamt).signExtend 64) :
    dispatchOpImm32 cpu instruction = cpuWriteReg cpu instruction.rd
      (op.wordOp.eval (cpuReadReg cpu instruction.rs1) (shamt.setWidth 64)) := by
  have hamount := word_shift_amount op shamt
  have hkind := word_shift_kind op shamt
  rw [← himm] at hamount hkind
  cases op with
  | slliw =>
    simp [dispatchOpImm32, h3, WordOp.funct3, slliw, immediateOp, WordShift.wordOp, eval_sllw,
      hamount, sign_extend_word, low]
  | srliw =>
    simp [dispatchOpImm32, h3, WordOp.funct3, sriw, hkind, WordOp.funct7, srliw, immediateOp,
      WordShift.wordOp, eval_srlw, hamount, sign_extend_word, low]
  | sraiw =>
    simp [dispatchOpImm32, h3, WordOp.funct3, sriw, hkind, WordOp.funct7, sraiw, immediateOp,
      WordShift.wordOp, eval_sraw, hamount, sign_extend_word, low]

end

/-- What the instruction set asks of a word operation: `rd` receives its value
and nothing else changes. -/
def WordResult (vm : Vm) (instr : WordInstr) : Prop :=
  dispatchInstruction vm instr.encode =
    vm.onCpu (cpuWriteReg · instr.rd (instr.value (cpuReadReg vm.cpu)))

/-- An SRAW by 16 or more, of a word on which the 16 places that are lost make a
difference, into a register that keeps it. -/
def ShiftLost (vm : Vm) : WordInstr → Prop
  | .register .sraw rd rs1 rs2 =>
    rd ≠ 0 ∧ 16 ≤ (cpuReadReg vm.cpu rs2).toNat % 32 ∧
      ¬ (-2 ^ ((cpuReadReg vm.cpu rs2).toNat % 16) ≤ (low (cpuReadReg vm.cpu rs1)).toInt ∧
        (low (cpuReadReg vm.cpu rs1)).toInt < 2 ^ ((cpuReadReg vm.cpu rs2).toNat % 16))
  | _ => False

theorem sign_extend_inj {x y : BitVec 32} : x.signExtend 64 = y.signExtend 64 ↔ x = y := by
  constructor
  · intro h
    have hi := congrArg BitVec.toInt h
    rw [BitVec.toInt_signExtend_of_le (by decide), BitVec.toInt_signExtend_of_le (by decide)] at hi
    exact BitVec.eq_of_toInt_eq hi
  · intro h
    rw [h]

/-- The mask makes no difference below 16, and 16 places of it from there on. -/
theorem sraw_value_iff (x y : BitVec 64) :
    srawValue x y = WordOp.eval .sraw x y ↔
      ¬ (16 ≤ y.toNat % 32 ∧
        ¬ (-2 ^ (y.toNat % 16) ≤ (low x).toInt ∧ (low x).toInt < 2 ^ (y.toNat % 16))) := by
  rw [srawValue, eval_sraw, sign_extend_inj, ← BitVec.toInt_inj, BitVec.toInt_sshiftRight,
    BitVec.toInt_sshiftRight, Int.shiftRight_eq_div_pow, Int.shiftRight_eq_div_pow,
    Int.natCast_pow, Int.natCast_pow]
  by_cases hb : 16 ≤ y.toNat % 32
  · have hsplit : y.toNat % 32 = y.toNat % 16 + 16 := by omega
    rw [hsplit]
    simp only [Nat.le_add_left, true_and, Classical.not_not]
    exact shift_more_iff (low x).toInt (y.toNat % 16)
  · have hsame : y.toNat % 32 = y.toNat % 16 := by omega
    simp [hsame, hsame ▸ hb]

theorem word_register_dispatch (vm : Vm) (op : WordOp) (rd rs1 rs2 : BitVec 5) :
    dispatchInstruction vm (WordInstr.register op rd rs1 rs2).encode =
      vm.onCpu (dispatchOp32 · (decodeR (WordInstr.register op rd rs1 rs2).encode)) := by
  have h7 : op.funct7 ≠ 0x01 := by cases op <;> decide
  have hop : Opcode.ofRaw (opcodeOf (WordInstr.register op rd rs1 rs2).encode) = some .op32 := by
    rw [WordInstr.encode, opcode_r]
    rfl
  rw [dispatch_op32_word hop]
  simp only [WordInstr.encode, decode_r, h7, if_false]

theorem on_cpu_inj {vm : Vm} {f g : Cpu → Cpu} : vm.onCpu f = vm.onCpu g ↔ f vm.cpu = g vm.cpu := by
  simp [Vm.onCpu]

/-- The immediate forms and the register forms other than SRAW. -/
theorem word_result_of_other (vm : Vm) {instr : WordInstr}
    (h : ∀ rd rs1 rs2, instr ≠ .register .sraw rd rs1 rs2) : WordResult vm instr := by
  cases instr with
  | register op rd rs1 rs2 =>
    have hop : op ≠ .sraw := by
      intro he
      exact h rd rs1 rs2 (by rw [he])
    rw [WordResult, word_register_dispatch, on_cpu_inj, WordInstr.encode, decode_r]
    exact dispatch_op32_eq vm.cpu op hop rfl rfl
  | addiw rd rs1 imm =>
    have hop : Opcode.ofRaw (opcodeOf (WordInstr.addiw rd rs1 imm).encode) = some .opImm32 := by
      rw [WordInstr.encode, opcode_i]
      rfl
    rw [WordResult, dispatch_op_imm32_word hop, on_cpu_inj, WordInstr.encode, decode_i]
    exact dispatch_addiw_eq vm.cpu rfl
  | shift op rd rs1 shamt =>
    have hop : Opcode.ofRaw (opcodeOf (WordInstr.shift op rd rs1 shamt).encode) =
        some .opImm32 := by
      rw [WordInstr.encode, opcode_i]
      rfl
    rw [WordResult, dispatch_op_imm32_word hop, on_cpu_inj, WordInstr.encode, decode_i]
    exact dispatch_word_shift_eq vm.cpu op shamt rfl rfl

theorem sraw_result_iff (vm : Vm) (rd rs1 rs2 : BitVec 5) :
    WordResult vm (.register .sraw rd rs1 rs2) ↔
      ¬ ShiftLost vm (.register .sraw rd rs1 rs2) := by
  have hcode : dispatchOp32 vm.cpu (decodeR (WordInstr.register .sraw rd rs1 rs2).encode) =
      cpuWriteReg vm.cpu rd (srawValue (cpuReadReg vm.cpu rs1) (cpuReadReg vm.cpu rs2)) := by
    rw [WordInstr.encode, decode_r]
    exact dispatch_sraw_eq vm.cpu rfl rfl
  rw [WordResult, word_register_dispatch, on_cpu_inj, hcode, WordInstr.rd, write_reg_inj,
    WordInstr.value, sraw_value_iff, ShiftLost]
  by_cases hz : rd = 0
  · simp [hz]
  · simp only [hz, false_or, ne_eq, not_false_eq_true, true_and]

/-- A word operation does what the instruction set asks exactly when it is no
SRAW that loses a bit of its shift amount. -/
theorem word_result_iff (vm : Vm) (instr : WordInstr) :
    WordResult vm instr ↔ ¬ ShiftLost vm instr := by
  by_cases h : ∃ rd rs1 rs2, instr = .register .sraw rd rs1 rs2
  · obtain ⟨rd, rs1, rs2, rfl⟩ := h
    exact sraw_result_iff vm rd rs1 rs2
  · have hno : ∀ rd rs1 rs2, instr ≠ .register .sraw rd rs1 rs2 :=
      fun rd rs1 rs2 he => h ⟨rd, rs1, rs2, he⟩
    have hnl : ¬ ShiftLost vm instr := by
      intro hl
      unfold ShiftLost at hl
      split at hl
      · exact hno _ _ _ rfl
      · exact hl
    exact iff_of_true (word_result_of_other vm hno) hnl

/-- Every word operation does what the instruction set asks, and every shift by
a register gives what the shift by the same immediate gives, exactly when it is
no SRAW that loses a bit of its shift amount. -/
theorem word_operations_iff (vm : Vm) :
    (∀ instr, WordResult vm instr ↔ ¬ ShiftLost vm instr) ∧
    (∀ (op : WordShift) (rd rs1 rs2 shamt : BitVec 5),
      cpuReadReg vm.cpu rs2 = shamt.setWidth 64 →
      (dispatchInstruction vm (WordInstr.register op.wordOp rd rs1 rs2).encode =
          dispatchInstruction vm (WordInstr.shift op rd rs1 shamt).encode ↔
        ¬ ShiftLost vm (.register op.wordOp rd rs1 rs2))) ∧
    (∀ rd rs1 rs2 shamt : BitVec 5, cpuReadReg vm.cpu rs2 = shamt.setWidth 64 →
      dispatchInstruction vm (WordInstr.register .addw rd rs1 rs2).encode =
        dispatchInstruction vm (WordInstr.addiw rd rs1 (shamt.setWidth 12)).encode) := by
  refine ⟨word_result_iff vm, ?_, ?_⟩
  · intro op rd rs1 rs2 shamt h
    have himm : WordResult vm (.shift op rd rs1 shamt) :=
      word_result_of_other vm fun _ _ _ he => by cases he
    rw [himm, ← word_result_iff vm, WordResult, WordInstr.value, WordInstr.value, h]
    rfl
  · intro rd rs1 rs2 shamt h
    have hreg : WordResult vm (.register .addw rd rs1 rs2) :=
      word_result_of_other vm fun _ _ _ he => by cases he
    have himm : WordResult vm (.addiw rd rs1 (shamt.setWidth 12)) :=
      word_result_of_other vm fun _ _ _ he => by cases he
    have hsame : Rv64i.wrap (shamt.setWidth 12).toInt = shamt.setWidth 64 := by
      have hmsb : (shamt.setWidth 12).msb = false := by
        rw [BitVec.msb_setWidth]
        simp
      rw [Rv64i.wrap_imm, BitVec.signExtend_eq_setWidth_of_msb_false hmsb]
      apply BitVec.eq_of_toNat_eq
      have := shamt.isLt
      simp only [BitVec.toNat_setWidth]
      omega
    rw [hreg, himm, WordInstr.value, WordInstr.value, h, hsame]
    rfl

/-- A machine at reset but for two registers. -/
def withOperands (x y : BitVec 64) : Vm :=
  { cpu := cpuWriteReg (cpuWriteReg (vmInit (ramOf [])).cpu 1 x) 2 y, bus := busOf (ramOf []) }

/-- SRAW of the least word by 16 leaves it as it is. -/
theorem word_operation_fails : ¬ ∀ vm instr, WordResult vm instr := by
  intro h
  have hlost : ShiftLost (withOperands 0x80000000 16) (.register .sraw 3 1 2) := by
    refine ⟨by decide, by decide, ?_⟩
    intro hs
    exact absurd hs.1 (by decide)
  exact (word_result_iff _ _).mp (h _ _) hlost

/-- An arithmetic and a logical shift by half agree on the lower half. -/
theorem high_half_eq (product : BitVec 128) : highHalf product = product.extractLsb' 64 64 := by
  apply BitVec.eq_of_getLsbD_eq
  intro i hi
  rw [highHalf, BitVec.getLsbD_setWidth, BitVec.getLsbD_sshiftRight, BitVec.getLsbD_extractLsb']
  simp [hi, show i < 128 by omega, show 64 + i < 128 by omega]

theorem unsigned_half_eq (product : BitVec 128) :
    (product >>> 64).setWidth 64 = product.extractLsb' 64 64 := by
  apply BitVec.eq_of_getLsbD_eq
  intro i hi
  simp [hi]

section
variable (x y : BitVec 64)

theorem word_op_eq (f : BitVec 32 → BitVec 32 → BitVec 32) : wordOp f x y = onWords f x y := by
  rw [wordOp, sign_extend_word]
  rfl

variable {w : Nat} (a b : BitVec w)

theorem guarded_div_eq (hw : 0 < w) : guardedDiv a b = quotient a b := by
  rw [guardedDiv, quotient_eq a b hw]

theorem guarded_rem_eq (hw : 0 < w) : guardedRem a b = remainder a b := by
  rw [guardedRem, remainder_eq a b hw]

theorem guarded_divu_eq : guardedDivu a b = quotientU a b := by
  rw [guardedDivu, quotientU_eq]

theorem guarded_remu_eq : guardedRemu a b = remainderU a b := by
  rw [guardedRemu, remainderU_eq]

end

/-- The function of the handler that the M dispatchers select. -/
def mHandler : MOp → BitVec 64 → BitVec 64 → BitVec 64
  | .mul => fun x y => x * y
  | .mulh => fun x y => highHalf (x.signExtend 128 * y.signExtend 128)
  | .mulhsu => fun x y => highHalf (x.signExtend 128 * y.setWidth 128)
  | .mulhu => fun x y => ((x.setWidth 128 * y.setWidth 128) >>> 64).setWidth 64
  | .div => guardedDiv
  | .divu => guardedDivu
  | .rem => guardedRem
  | .remu => guardedRemu
  | .mulw => wordOp fun x y => x * y
  | .divw => wordOp guardedDiv
  | .divuw => wordOp guardedDivu
  | .remw => wordOp guardedRem
  | .remuw => wordOp guardedRemu

/-- Each handler computes its operation on numbers. -/
theorem m_handler_eq (op : MOp) (x y : BitVec 64) : mHandler op x y = op.eval x y := by
  have hdiv : (guardedDiv : BitVec 32 → BitVec 32 → BitVec 32) = quotient :=
    funext fun a => funext fun b => guarded_div_eq a b (by decide)
  have hrem : (guardedRem : BitVec 32 → BitVec 32 → BitVec 32) = remainder :=
    funext fun a => funext fun b => guarded_rem_eq a b (by decide)
  have hdivu : (guardedDivu : BitVec 32 → BitVec 32 → BitVec 32) = quotientU :=
    funext fun a => funext fun b => guarded_divu_eq a b
  have hremu : (guardedRemu : BitVec 32 → BitVec 32 → BitVec 32) = remainderU :=
    funext fun a => funext fun b => guarded_remu_eq a b
  cases op with
  | mul => rw [mHandler, eval_mul]
  | mulh => simp only [mHandler, eval_mulh, high_half_eq]
  | mulhsu => simp only [mHandler, eval_mulhsu, high_half_eq]
  | mulhu => simp only [mHandler, eval_mulhu, unsigned_half_eq]
  | div => rw [mHandler, MOp.eval, guarded_div_eq x y (by decide)]
  | divu => rw [mHandler, MOp.eval, guarded_divu_eq]
  | rem => rw [mHandler, MOp.eval, guarded_rem_eq x y (by decide)]
  | remu => rw [mHandler, MOp.eval, guarded_remu_eq]
  | mulw =>
    rw [mHandler, eval_mulw, word_op_eq]
    rfl
  | divw => rw [mHandler, MOp.eval, word_op_eq, hdiv]
  | divuw => rw [mHandler, MOp.eval, word_op_eq, hdivu]
  | remw => rw [mHandler, MOp.eval, word_op_eq, hrem]
  | remuw => rw [mHandler, MOp.eval, word_op_eq, hremu]

theorem dispatch_m_op_eq (cpu : Cpu) {instruction : RType} (op : MOp) (hop : op.isWord = false)
    (h3 : instruction.funct3 = op.funct3) :
    dispatchMOp cpu instruction = registerOp (mHandler op) cpu instruction := by
  unfold dispatchMOp
  rw [h3]
  cases op <;> first | rfl | cases hop

theorem dispatch_m_op32_eq (cpu : Cpu) {instruction : RType} (op : MOp) (hop : op.isWord = true)
    (h3 : instruction.funct3 = op.funct3) :
    dispatchMOp32 cpu instruction = registerOp (mHandler op) cpu instruction := by
  unfold dispatchMOp32
  rw [h3]
  cases op <;> first | rfl | cases hop

/-- An M instruction writes its value to `rd` and does nothing else. -/
theorem m_dispatch (vm : Vm) (op : MOp) (rd rs1 rs2 : BitVec 5) :
    dispatchInstruction vm (op.encode rd rs1 rs2) =
      vm.onCpu (cpuWriteReg · rd (op.eval (cpuReadReg vm.cpu rs1) (cpuReadReg vm.cpu rs2))) := by
  rw [← m_handler_eq]
  cases hw : op.isWord with
  | true =>
    have hop : Opcode.ofRaw (opcodeOf (op.encode rd rs1 rs2)) = some .op32 := by
      rw [MOp.encode, opcode_r, if_pos hw]
      rfl
    rw [dispatch_op32_word hop, on_cpu_inj, MOp.encode, decode_r]
    exact dispatch_m_op32_eq vm.cpu op hw rfl
  | false =>
    have hop : Opcode.ofRaw (opcodeOf (op.encode rd rs1 rs2)) = some .op := by
      rw [MOp.encode, opcode_r, if_neg (by simp [hw])]
      rfl
    rw [dispatch_op_word hop, on_cpu_inj, MOp.encode, decode_r]
    exact dispatch_m_op_eq vm.cpu op hw rfl

/-- The results of the division handlers, computed with C's divisions, are
defined and are the values of the operations. -/
structure DivisionsDefined (x y : BitVec 64) : Prop where
  div : divResult x y = some (MOp.eval .div x y)
  divu : divuResult x y = some (MOp.eval .divu x y)
  rem : remResult x y = some (MOp.eval .rem x y)
  remu : remuResult x y = some (MOp.eval .remu x y)
  divw : wordResult divwResult x y = some (MOp.eval .divw x y)
  divuw : wordResult divuwResult x y = some (MOp.eval .divuw x y)
  remw : wordResult remwResult x y = some (MOp.eval .remw x y)
  remuw : wordResult remuwResult x y = some (MOp.eval .remuw x y)

/-- Quotient and remainder of a pair give the dividend back, modulo the width of
the operands. -/
structure DividesBack (x y : BitVec 64) : Prop where
  signed : MOp.eval .div x y * y + MOp.eval .rem x y = x
  unsigned : MOp.eval .divu x y * y + MOp.eval .remu x y = x
  signedWord : low (MOp.eval .divw x y) * low y + low (MOp.eval .remw x y) = low x
  unsignedWord : low (MOp.eval .divuw x y) * low y + low (MOp.eval .remuw x y) = low x

section
variable {w : Nat} (a b : BitVec w)

/-- The tests of a handler keep its division from being undefined. -/
theorem division_guarded {α : Type} (overflow quotient : α) (byZero : α) :
    (if a = BitVec.intMin w ∧ b = BitVec.allOnes w then some overflow
      else if b = 0 then some byZero
      else if b = 0 ∨ a = BitVec.intMin w ∧ b = BitVec.allOnes w then none else some quotient) =
    some (if a = BitVec.intMin w ∧ b = BitVec.allOnes w then overflow
      else if b = 0 then byZero else quotient) := by
  by_cases ho : a = BitVec.intMin w ∧ b = BitVec.allOnes w
  · rw [if_pos ho, if_pos ho]
  · by_cases hz : b = 0
    · rw [if_neg ho, if_neg ho, if_pos hz, if_pos hz]
    · rw [if_neg ho, if_neg ho, if_neg hz, if_neg hz, if_neg fun h => h.elim hz ho]

theorem c_div_guarded :
    (if a = BitVec.intMin w ∧ b = BitVec.allOnes w then some (BitVec.intMin w)
      else if b = 0 then some (BitVec.allOnes w) else cDiv a b) = some (guardedDiv a b) :=
  division_guarded a b _ _ _

theorem c_rem_guarded :
    (if a = BitVec.intMin w ∧ b = BitVec.allOnes w then some 0
      else if b = 0 then some a else cRem a b) = some (guardedRem a b) :=
  division_guarded a b _ _ _

theorem c_divu_guarded :
    (if b = 0 then some (BitVec.allOnes w) else cDivu a b) = some (guardedDivu a b) := by
  unfold guardedDivu cDivu
  split <;> rfl

theorem c_remu_guarded : (if b = 0 then some a else cRemu a b) = some (guardedRemu a b) := by
  unfold guardedRemu cRemu
  split <;> rfl

end

theorem low_sign_extend (x : BitVec 32) : (x.signExtend 64).setWidth 32 = x := by
  apply BitVec.eq_of_getLsbD_eq
  intro i hi
  rw [BitVec.getLsbD_setWidth, BitVec.getLsbD_signExtend]
  simp [hi, show i < 64 by omega]

theorem low_on_words (f : BitVec 32 → BitVec 32 → BitVec 32) (x y : BitVec 64) :
    low (onWords f x y) = f (low x) (low y) := low_sign_extend _

/-- The 64-bit results of the W handlers are the 32-bit ones, extended. -/
theorem word_result_eq {result : BitVec 32 → BitVec 32 → Option (BitVec 64)}
    {f : BitVec 32 → BitVec 32 → BitVec 32}
    (h : ∀ a b, (result a b).map (fun value => value.setWidth 32) = some (f a b))
    (x y : BitVec 64) : wordResult result x y = some (wordOp f x y) := by
  have hr := h (x.setWidth 32) (y.setWidth 32)
  unfold wordResult wordOp
  cases he : result (x.setWidth 32) (y.setWidth 32) with
  | none => simp [he] at hr
  | some value =>
    rw [he] at hr
    rw [← Option.some.inj hr]
    rfl

theorem divw_result_low (a b : BitVec 32) :
    (divwResult a b).map (fun value => value.setWidth 32) = some (guardedDiv a b) := by
  rw [← c_div_guarded, divwResult]
  split
  · simp [low_sign_extend]
  · split
    · rfl
    · simp [low_sign_extend, Function.comp_def]

theorem divuw_result_low (a b : BitVec 32) :
    (divuwResult a b).map (fun value => value.setWidth 32) = some (guardedDivu a b) := by
  have hc : (if b = 0 then some 0xFFFFFFFF else cDivu a b) = some (guardedDivu a b) :=
    c_divu_guarded a b
  rw [divuwResult, hc]
  simp

theorem remw_result_low (a b : BitVec 32) :
    (remwResult a b).map (fun value => value.setWidth 32) = some (guardedRem a b) := by
  rw [← c_rem_guarded, remwResult]
  split
  · rfl
  · simp [low_sign_extend, Function.comp_def]

theorem remuw_result_low (a b : BitVec 32) :
    (remuwResult a b).map (fun value => value.setWidth 32) = some (guardedRemu a b) := by
  rw [remuwResult, c_remu_guarded]
  simp

theorem divisions_defined (x y : BitVec 64) : DivisionsDefined x y where
  div := by
    rw [← m_handler_eq]
    exact c_div_guarded x y
  divu := by
    rw [← m_handler_eq]
    exact c_divu_guarded x y
  rem := by
    rw [← m_handler_eq]
    exact c_rem_guarded x y
  remu := by
    rw [← m_handler_eq]
    exact c_remu_guarded x y
  divw := by
    rw [← m_handler_eq]
    exact word_result_eq divw_result_low x y
  divuw := by
    rw [← m_handler_eq]
    exact word_result_eq divuw_result_low x y
  remw := by
    rw [← m_handler_eq]
    exact word_result_eq remw_result_low x y
  remuw := by
    rw [← m_handler_eq]
    exact word_result_eq remuw_result_low x y

theorem divides_back (x y : BitVec 64) : DividesBack x y where
  signed := quotient_mul_add x y (by decide)
  unsigned := quotientU_mul_add x y
  signedWord := by
    rw [MOp.eval, MOp.eval, low_on_words, low_on_words]
    exact quotient_mul_add (low x) (low y) (by decide)
  unsignedWord := by
    rw [MOp.eval, MOp.eval, low_on_words, low_on_words]
    exact quotientU_mul_add (low x) (low y)

/-- Every M instruction writes the value of its operation on numbers to `rd` and
does nothing else; the divisions its handler evaluates are all defined in C, and
quotients and remainders fit together. -/
theorem m_extension_correct (vm : Vm) (op : MOp) (rd rs1 rs2 : BitVec 5) :
    dispatchInstruction vm (op.encode rd rs1 rs2) =
      vm.onCpu (cpuWriteReg · rd (op.eval (cpuReadReg vm.cpu rs1) (cpuReadReg vm.cpu rs2))) ∧
    DivisionsDefined (cpuReadReg vm.cpu rs1) (cpuReadReg vm.cpu rs2) ∧
    DividesBack (cpuReadReg vm.cpu rs1) (cpuReadReg vm.cpu rs2) :=
  ⟨m_dispatch vm op rd rs1 rs2, divisions_defined _ _, divides_back _ _⟩

end RiscvVm.Proofs
