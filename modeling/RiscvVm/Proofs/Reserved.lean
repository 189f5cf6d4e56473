import RiscvVm.Proofs.Precise
import RiscvVm.Lib.Encodings

namespace RiscvVm.Proofs
open Encodings (funct3 funct6 funct7 funct5 rd rs1 rs2 imm Assigned)

/-- What it takes for a word to be assigned, once its opcode is known. -/
def AssignedAs (word : BitVec 32) : Opcode → Prop
  | .lui | .auipc | .jal => True
  | .jalr => funct3 word = 0
  | .branch => funct3 word ≠ 2 ∧ funct3 word ≠ 3
  | .load => funct3 word ≠ 7
  | .store => funct3 word ≤ 3
  | .opImm => Encodings.OpImm word
  | .opImm32 => Encodings.OpImm32 word
  | .op => Encodings.Op word
  | .op32 => Encodings.Op32 word
  | .miscMem => Encodings.MiscMem word
  | .amo => Encodings.Amo word
  | .system => Encodings.System word

theorem assigned_iff {word : BitVec 32} {opcode : Opcode}
    (hop : Opcode.ofRaw (opcodeOf word) = some opcode) :
    Assigned word ↔ AssignedAs word opcode := by
  have hcode : Encodings.opcode word = opcode.code := of_raw_eq hop
  unfold Assigned
  rw [hcode]
  cases opcode <;> exact Iff.rfl

/-- The reserved words the dispatchers execute, by opcode: the funct7 of OP and
OP-32 and the upper immediate of left shifts and of the 32-bit right shifts are
not looked at closely, nor the funct3 of JALR, nor the operands of ECALL,
EBREAK, WFI, SRET and MRET. The last two are executed only where they may be. -/
def AcceptsReserved (priv : BitVec 8) (word : BitVec 32) : Prop :=
  match Opcode.ofRaw (opcodeOf word) with
  | some .jalr => funct3 word ≠ 0
  | some .opImm => funct3 word = 1 ∧ funct6 word ≠ 0
  | some .opImm32 =>
    (funct3 word = 1 ∧ funct7 word ≠ 0) ∨
      (funct3 word = 5 ∧ (funct7 word = 0b0000001 ∨ funct7 word = 0b0100001))
  | some .op =>
    funct7 word ≠ 0 ∧ funct7 word ≠ 1 ∧
      (funct7 word = 0b0100000 → funct3 word ≠ 0 ∧ funct3 word ≠ 5)
  | some .op32 =>
    funct7 word ≠ 0 ∧ funct7 word ≠ 1 ∧
      (funct3 word = 1 ∨ ((funct3 word = 0 ∨ funct3 word = 5) ∧ funct7 word ≠ 0b0100000))
  | some .system =>
    funct3 word = 0 ∧ (rd word ≠ 0 ∨ rs1 word ≠ 0) ∧
      (imm word = 0x000 ∨ imm word = 0x001 ∨ imm word = 0x105 ∨
        (imm word = 0x102 ∧ priv ≠ uMode) ∨ (imm word = 0x302 ∧ priv = mMode))
  | _ => False

/-- The word is refused: nothing happens but the exception. -/
def TrapsIllegal (m : Vm) (word : BitVec 32) : Prop :=
  dispatchInstruction m word = m.illegalInstruction word

theorem not_illegal_of_quiet {m done : Vm} (word : BitVec 32) (h : done.cpu.trapTaken = false) :
    done ≠ m.illegalInstruction word := by
  rintro rfl
  have ht := raise_exception_taken m.cpu excIllegalInstruction (word.setWidth 64)
  cases h.symm.trans ht

/-- Exceptions with different causes leave different states. -/
theorem raise_exception_ne {cpu : Cpu} {c d : BitVec 64} (hc : c.toNat < 64) (hd : d.toNat < 64)
    (hne : c ≠ d) (s t : BitVec 64) : raiseException cpu c s ≠ raiseException cpu d t := by
  intro h
  rw [raise_exception_eq cpu hc, raise_exception_eq cpu hd] at h
  split at h <;> split at h
  · exact hne (congrArg (fun cpu => cpu.csrs csrScause) h)
  · have hp : sMode = mMode := congrArg Cpu.priviledge h
    exact absurd hp (by decide)
  · have hp : mMode = sMode := congrArg Cpu.priviledge h
    exact absurd hp (by decide)
  · exact hne (congrArg (fun cpu => cpu.csrs csrMcause) h)

theorem funct7_extract (word : BitVec 32) : funct7 word = (imm word).extractLsb' 5 7 := by
  apply BitVec.eq_of_getLsbD_eq
  intro i hi
  have h12 : 5 + i < 12 := by omega
  simp [funct7, imm, hi, h12, ← Nat.add_assoc]

theorem funct6_extract (word : BitVec 32) : funct6 word = (imm word).extractLsb' 6 6 := by
  apply BitVec.eq_of_getLsbD_eq
  intro i hi
  have h12 : 6 + i < 12 := by omega
  simp [funct6, imm, hi, h12, ← Nat.add_assoc]

theorem funct6_of_funct7 (word : BitVec 32) : funct6 word = (funct7 word).extractLsb' 1 6 := by
  apply BitVec.eq_of_getLsbD_eq
  intro i hi
  have h7 : 1 + i < 7 := by omega
  simp [funct6, funct7, hi, h7, ← Nat.add_assoc]

/-- The right shifts tell SRAI from SRLI by the six upper bits. -/
theorem upper_imm (word : BitVec 32) :
    ((decodeI word).imm >>> 6 = 0b010000 ↔ funct6 word = 0b010000) ∧
      ((decodeI word).imm >>> 6 = 0b000000 ↔ funct6 word = 0b000000) := by
  have hshift : (decodeI word).imm >>> 6 = ((funct6 word).signExtend 58).setWidth 64 := by
    rw [decode_i_imm, funct6_extract]
    apply BitVec.eq_of_getLsbD_eq
    intro i hi
    have hmsb : ((imm word).extractLsb' 6 6).msb = (imm word).msb := by
      simp [BitVec.msb_eq_getLsbD_last]
    rw [BitVec.getLsbD_ushiftRight, BitVec.getLsbD_signExtend, BitVec.getLsbD_setWidth,
      BitVec.getLsbD_signExtend, hmsb]
    by_cases h6 : i < 6
    · have h12 : 6 + i < 12 := by omega
      have h58 : i < 58 := by omega
      simp [h6, h12, h58, hi, imm, field]
      omega
    · have h12 : ¬ 6 + i < 12 := by omega
      have h64 : 6 + i < 64 ↔ i < 58 := by omega
      simp [h6, h12, h64, hi, imm, field]
  have hall : ∀ f : BitVec 6, ((f.signExtend 58).setWidth 64 = 0b010000#64 ↔ f = 0b010000) ∧
      ((f.signExtend 58).setWidth 64 = 0#64 ↔ f = 0b000000) := by decide
  rw [hshift]
  exact hall _

/-- OP always finds an operation for its funct3. -/
theorem op_quiet (cpu : Cpu) (instruction : RType) :
    (dispatchOp cpu instruction).trapTaken = cpu.trapTaken ∧
      (dispatchMOp cpu instruction).trapTaken = cpu.trapTaken := by
  have hall : ∀ f : BitVec 3, f ≠ 0 → f ≠ 1 → f ≠ 2 → f ≠ 3 → f ≠ 4 → f ≠ 5 → f ≠ 6 → ¬ f ≠ 7 := by
    decide
  constructor
  · unfold dispatchOp
    split
    case h_9 h0 h1 h2 h3 h4 h5 h6 h7 => exact absurd h7 (hall _ h0 h1 h2 h3 h4 h5 h6)
    all_goals
      repeat' split
      all_goals first
        | exact write_reg_trap_taken _ _ _
        | rfl
  · unfold dispatchMOp
    split
    case h_9 h0 h1 h2 h3 h4 h5 h6 h7 => exact absurd h7 (hall _ h0 h1 h2 h3 h4 h5 h6)
    all_goals exact write_reg_trap_taken _ _ _

section
variable {m : Vm} {word : BitVec 32}

theorem branch_refused (hop : Opcode.ofRaw (opcodeOf word) = some .branch)
    (h : ¬ (funct3Of word ≠ 2 ∧ funct3Of word ≠ 3)) : TrapsIllegal m word := by
  have h3 : funct3Of word = 2 ∨ funct3Of word = 3 := by
    by_cases h2 : funct3Of word = 2
    · exact Or.inl h2
    · exact Or.inr (Decidable.byContradiction fun h3 => h ⟨h2, h3⟩)
  unfold TrapsIllegal
  rw [dispatch_branch_word hop]
  rcases h3 with h3 | h3 <;> simp [Vm.onCpu, dispatchBranch, h3] <;> rfl

theorem load_refused (hop : Opcode.ofRaw (opcodeOf word) = some .load) (h : funct3Of word = 7) :
    TrapsIllegal m word := by
  unfold TrapsIllegal
  rw [dispatch_load_word hop]
  simp [dispatchLoad, h]

theorem store_refused (hop : Opcode.ofRaw (opcodeOf word) = some .store)
    (h : ¬ funct3Of word ≤ 3) : TrapsIllegal m word := by
  unfold TrapsIllegal
  rw [dispatch_store_word hop]
  unfold dispatchStore
  rw [decode_s_funct3]
  split
  case h_5 => rfl
  all_goals
    rename_i hf
    rw [hf] at h
    exact absurd (by decide) h

theorem op_imm_refused (hop : Opcode.ofRaw (opcodeOf word) = some .opImm)
    (h3 : funct3Of word = 5) (h0 : funct6 word ≠ 0) (h16 : funct6 word ≠ 0b010000) :
    TrapsIllegal m word := by
  obtain ⟨hsra, hsrl⟩ := upper_imm word
  unfold TrapsIllegal
  rw [dispatch_op_imm_word hop]
  simp only [Vm.onCpu, dispatchOpImm, decode_i_funct3, h3, sri]
  rw [if_neg fun h => h16 (hsra.mp h), if_neg fun h => h0 (hsrl.mp h)]
  rfl

theorem op_imm32_refused (hop : Opcode.ofRaw (opcodeOf word) = some .opImm32)
    (h0 : funct3Of word ≠ 0) (h1 : funct3Of word ≠ 1)
    (h5 : funct3Of word = 5 → funct6 word ≠ 0 ∧ funct6 word ≠ 0b010000) :
    TrapsIllegal m word := by
  obtain ⟨hsra, hsrl⟩ := upper_imm word
  unfold TrapsIllegal
  rw [dispatch_op_imm32_word hop]
  simp only [Vm.onCpu, dispatchOpImm32, decode_i_funct3, sriw]
  split
  · exact absurd ‹_› h0
  · exact absurd ‹_› h1
  · obtain ⟨hno, hno16⟩ := h5 ‹_›
    rw [if_neg fun h => hno16 (hsra.mp h), if_neg fun h => hno (hsrl.mp h)]
    rfl
  · rfl

theorem op32_refused (hop : Opcode.ofRaw (opcodeOf word) = some .op32)
    (h0 : funct3Of word ≠ 0) (hm : funct7 word = 1 → ¬ 4 ≤ funct3Of word)
    (h : funct7 word ≠ 1 → funct3Of word ≠ 1 ∧ funct3Of word ≠ 5) : TrapsIllegal m word := by
  unfold TrapsIllegal
  rw [dispatch_op32_word hop]
  unfold Vm.onCpu
  dsimp only
  by_cases h7 : (decodeR word).funct7 = 1
  · have hlow := hm h7
    rw [if_pos h7]
    unfold dispatchMOp32
    split
    case h_1 hf => exact absurd hf h0
    case h_6 => rfl
    all_goals
      rename_i hf
      have hf' : funct3Of word = _ := hf
      rw [hf'] at hlow
      exact absurd (by decide) hlow
  · obtain ⟨h1, h5⟩ := h h7
    rw [if_neg h7]
    unfold dispatchOp32
    split
    · exact absurd ‹_› h0
    · exact absurd ‹_› h1
    · exact absurd ‹_› h5
    · rfl

theorem misc_mem_refused (hop : Opcode.ofRaw (opcodeOf word) = some .miscMem)
    (h : ¬ Encodings.MiscMem word) : TrapsIllegal m word := by
  unfold TrapsIllegal
  rw [dispatch_misc_mem_word hop]
  unfold dispatchMiscMem
  split
  · exact absurd (Or.inl ‹_›) h
  · rename_i hf
    unfold fenceI
    rw [if_pos]
    · rfl
    · apply Decidable.byContradiction
      intro hno
      simp only [not_or, Decidable.not_not] at hno
      exact h (Or.inr ⟨hf, hno.1, hno.2.1, (imm_eq_iff (n := 0) (by omega)).mp hno.2.2⟩)
  · rfl

theorem amo_refused (hop : Opcode.ofRaw (opcodeOf word) = some .amo)
    (h : ¬ Encodings.Amo word) : TrapsIllegal m word := by
  unfold TrapsIllegal
  rw [dispatch_amo_word hop]
  unfold dispatchAExtension
  split
  · rename_i hamo
    have hmem : funct5 word ∈ [0x00, 0x01, 0x04, 0x08, 0x0C, 0x10, 0x14, 0x18, 0x1C] := by
      have hamo' : isAmo (funct5 word) = true := hamo
      simpa [isAmo] using hamo'
    split
    · exact absurd ⟨Or.inl ‹_›, Or.inl hmem⟩ h
    split
    · exact absurd ⟨Or.inr ‹_›, Or.inl hmem⟩ h
    · rfl
  split
  · rename_i hlr
    split
    · rename_i h2
      exact if_pos fun hz => h ⟨Or.inl h2, Or.inr (Or.inr ⟨hlr, hz⟩)⟩
    split
    · rename_i h3
      exact if_pos fun hz => h ⟨Or.inr h3, Or.inr (Or.inr ⟨hlr, hz⟩)⟩
    · rfl
  split
  · rename_i hsc
    split
    · exact absurd ⟨Or.inl ‹_›, Or.inr (Or.inl hsc)⟩ h
    split
    · exact absurd ⟨Or.inr ‹_›, Or.inr (Or.inl hsc)⟩ h
    · rfl
  · rfl

theorem system_refused (hop : Opcode.ofRaw (opcodeOf word) = some .system)
    (h : ¬ Encodings.System word) (hacc : ¬ AcceptsReserved m.cpu.priviledge word) :
    TrapsIllegal m word := by
  unfold AcceptsReserved at hacc
  rw [hop] at hacc
  dsimp only at hacc
  unfold TrapsIllegal
  rw [dispatch_system_word hop]
  by_cases hf : funct3Of word = 0
  · rw [system_zero_eq m hf]
    -- not SFENCE.VMA, and not the word itself of one of the others
    have hoperands : ∀ n ∈ [0x000, 0x001, 0x102, 0x302, 0x105], imm word = n →
        rd word ≠ 0 ∨ rs1 word ≠ 0 := by
      intro n hn himm
      apply Decidable.byContradiction
      intro hno
      simp only [not_or, Decidable.not_not] at hno
      exact h (Or.inr ⟨hf, hno.1, Or.inr ⟨hno.2, himm ▸ hn⟩⟩)
    split
    · rename_i hfence
      exact absurd (Or.inr ⟨hf, hfence.2, Or.inl hfence.1⟩) h
    split
    · have himm := (imm_eq_iff (n := 0) (by omega)).mp ‹_›
      exact absurd ⟨hf, hoperands _ (by decide) himm, Or.inl himm⟩ hacc
    · have himm := (imm_eq_iff (n := 1) (by omega)).mp ‹_›
      exact absurd ⟨hf, hoperands _ (by decide) himm, Or.inr (Or.inl himm)⟩ hacc
    · have himm := (imm_eq_iff (n := 0x102) (by omega)).mp ‹_›
      refine if_pos (Decidable.byContradiction fun hu => hacc ?_)
      exact ⟨hf, hoperands _ (by decide) himm, Or.inr (Or.inr (Or.inr (Or.inl ⟨himm, hu⟩)))⟩
    · have himm := (imm_eq_iff (n := 0x302) (by omega)).mp ‹_›
      refine if_pos fun hm => hacc ?_
      exact ⟨hf, hoperands _ (by decide) himm, Or.inr (Or.inr (Or.inr (Or.inr ⟨himm, hm⟩)))⟩
    · have himm := (imm_eq_iff (n := 0x105) (by omega)).mp ‹_›
      exact absurd ⟨hf, hoperands _ (by decide) himm, Or.inr (Or.inr (Or.inl himm))⟩ hacc
    · rfl
  · exact system_four_eq m (Decidable.byContradiction fun h4 => h (Or.inl ⟨hf, h4⟩))

end

/-- A reserved word that is not one of those executed is refused. -/
theorem reserved_refused {m : Vm} {word : BitVec 32} (h : ¬ Assigned word)
    (hacc : ¬ AcceptsReserved m.cpu.priviledge word) : TrapsIllegal m word := by
  cases hop : Opcode.ofRaw (opcodeOf word) with
  | none =>
    unfold TrapsIllegal dispatchInstruction
    rw [hop]
  | some opcode =>
    rw [assigned_iff hop] at h
    have hacc' := hacc
    unfold AcceptsReserved at hacc'
    rw [hop] at hacc'
    cases opcode with
    | lui => exact absurd trivial h
    | auipc => exact absurd trivial h
    | jal => exact absurd trivial h
    | jalr => exact absurd h hacc'
    | branch => exact branch_refused hop h
    | load => exact load_refused hop (Decidable.not_not.mp h)
    | store => exact store_refused hop h
    | opImm =>
      simp only [AssignedAs, Encodings.OpImm] at h hacc'
      have h5 : funct3 word = 5 := by grind
      exact op_imm_refused hop h5 (by grind) (by grind)
    | opImm32 =>
      simp only [AssignedAs, Encodings.OpImm32] at h hacc'
      have h0 : funct3 word ≠ 0 := by grind
      have h1 : funct3 word ≠ 1 := by grind
      refine op_imm32_refused hop h0 h1 fun h5 => ?_
      have hall : ∀ f : BitVec 7, f ≠ 0 → f ≠ 1 → f ≠ 0b0100000 → f ≠ 0b0100001 →
          f.extractLsb' 1 6 ≠ 0 ∧ f.extractLsb' 1 6 ≠ 0b010000 := by decide
      have h5' : funct3 word = 5 := h5
      rw [funct6_of_funct7]
      exact hall _ (by grind) (by grind) (by grind) (by grind)
    | op =>
      simp only [AssignedAs, Encodings.Op] at h hacc'
      exact absurd (by grind) hacc'
    | op32 =>
      simp only [AssignedAs, Encodings.Op32] at h hacc'
      have h0 : funct3 word ≠ 0 := by grind
      have hm : funct7 word = 1 → ¬ 4 ≤ funct3 word := by grind
      have h1 : funct7 word ≠ 1 → funct3 word ≠ 1 ∧ funct3 word ≠ 5 := by grind
      exact op32_refused hop h0 hm h1
    | miscMem => exact misc_mem_refused hop h
    | amo => exact amo_refused hop h
    | system => exact system_refused hop h hacc

/-- What is executed in spite of that is not assigned. -/
theorem accepted_not_assigned {priv : BitVec 8} {word : BitVec 32}
    (h : AcceptsReserved priv word) : ¬ Assigned word := by
  unfold AcceptsReserved at h
  cases hop : Opcode.ofRaw (opcodeOf word) with
  | none =>
    rw [hop] at h
    exact absurd h id
  | some opcode =>
    rw [hop] at h
    rw [assigned_iff hop]
    cases opcode with
    | jalr => exact h
    | opImm => exact fun ha => h.2 (ha.1 h.1)
    | opImm32 =>
      simp only [AssignedAs, Encodings.OpImm32]
      grind
    | op =>
      simp only [AssignedAs, Encodings.Op]
      grind
    | op32 =>
      simp only [AssignedAs, Encodings.Op32]
      grind
    | system =>
      obtain ⟨hf, hoperands, himm⟩ := h
      have hno : funct7 word ≠ 0x09 := by
        rw [funct7_extract]
        rcases himm with h | h | h | ⟨h, _⟩ | ⟨h, _⟩ <;> rw [h] <;> decide
      simp only [AssignedAs, Encodings.System]
      grind
    | _ => exact absurd h id

section
variable {m : Vm} {word : BitVec 32}

theorem jalr_quiet (hop : Opcode.ofRaw (opcodeOf word) = some .jalr) :
    (dispatchInstruction m word).cpu.trapTaken = m.cpu.trapTaken := by
  rw [dispatch_jalr_word hop]
  simp [jalr]

theorem slli_quiet (hop : Opcode.ofRaw (opcodeOf word) = some .opImm) (h1 : funct3Of word = 1) :
    (dispatchInstruction m word).cpu.trapTaken = m.cpu.trapTaken := by
  rw [dispatch_op_imm_word hop]
  simp [dispatchOpImm, h1, slli, immediateOp]

theorem op_imm32_quiet (hop : Opcode.ofRaw (opcodeOf word) = some .opImm32)
    (h : funct3Of word = 1 ∨
      (funct3Of word = 5 ∧ (funct6 word = 0 ∨ funct6 word = 0b010000))) :
    (dispatchInstruction m word).cpu.trapTaken = m.cpu.trapTaken := by
  obtain ⟨hsra, hsrl⟩ := upper_imm word
  rw [dispatch_op_imm32_word hop]
  rcases h with h1 | ⟨h5, h6 | h6⟩
  · simp [dispatchOpImm32, h1, slliw, immediateOp]
  · simp only [on_cpu_cpu, dispatchOpImm32, decode_i_funct3, h5, sriw]
    rw [if_neg fun h => absurd (h6.symm.trans (hsra.mp h)) (by decide), if_pos (hsrl.mpr h6)]
    exact write_reg_trap_taken _ _ _
  · simp only [on_cpu_cpu, dispatchOpImm32, decode_i_funct3, h5, sriw]
    rw [if_pos (hsra.mpr h6)]
    exact write_reg_trap_taken _ _ _

theorem op32_quiet (hop : Opcode.ofRaw (opcodeOf word) = some .op32) (h7 : funct7 word ≠ 1)
    (h : funct3 word = 0 ∨ funct3 word = 1 ∨ funct3 word = 5) :
    (dispatchInstruction m word).cpu.trapTaken = m.cpu.trapTaken := by
  have h7' : (decodeR word).funct7 ≠ 1 := h7
  have h' : (decodeR word).funct3 = 0 ∨ (decodeR word).funct3 = 1 ∨ (decodeR word).funct3 = 5 := h
  rw [dispatch_op32_word hop, on_cpu_cpu]
  rw [if_neg h7']
  unfold dispatchOp32
  split
  case h_4 h0 h1 h5 => exact absurd h' (not_or.mpr ⟨h0, not_or.mpr ⟨h1, h5⟩⟩)
  all_goals
    repeat' split
    all_goals first
      | exact write_reg_trap_taken _ _ _
      | rfl

theorem op_word_quiet (hop : Opcode.ofRaw (opcodeOf word) = some .op) :
    (dispatchInstruction m word).cpu.trapTaken = m.cpu.trapTaken := by
  rw [dispatch_op_word hop, on_cpu_cpu]
  split
  · exact (op_quiet _ _).2
  · exact (op_quiet _ _).1

/-- The immediate alone decides that these are carried out. -/
theorem environment_accepted (hop : Opcode.ofRaw (opcodeOf word) = some .system)
    (hm : m.cpu.trapTaken = false) (hf : funct3Of word = 0)
    (himm : imm word = 0x000 ∨ imm word = 0x001 ∨ imm word = 0x105 ∨
      (imm word = 0x102 ∧ m.cpu.priviledge ≠ uMode) ∨
      (imm word = 0x302 ∧ m.cpu.priviledge = mMode)) : ¬ TrapsIllegal m word := by
  have hno : funct7 word ≠ 0x09 := by
    rw [funct7_extract]
    rcases himm with h | h | h | ⟨h, _⟩ | ⟨h, _⟩ <;> rw [h] <;> decide
  unfold TrapsIllegal
  rw [dispatch_system_word hop, system_zero_eq m hf, if_neg fun h => hno h.1]
  rcases himm with h | h | h | ⟨h, hpriv⟩ | ⟨h, hpriv⟩
  · rw [(imm_eq_iff (n := 0) (by omega)).mpr h]
    have hcause : ecallCause m.cpu.priviledge ≠ excIllegalInstruction := by
      unfold ecallCause
      repeat' split
      all_goals decide
    exact fun he => raise_exception_ne (ecall_cause_lt _) (by decide) hcause _ _
      (congrArg Vm.cpu he)
  · rw [(imm_eq_iff (n := 1) (by omega)).mpr h]
    exact fun he => raise_exception_ne (c := excBreakpoint) (by decide) (by decide) (by decide) _ _
      (congrArg Vm.cpu he)
  · rw [(imm_eq_iff (n := 0x105) (by omega)).mpr h]
    exact not_illegal_of_quiet word hm
  · rw [(imm_eq_iff (n := 0x102) (by omega)).mpr h]
    refine not_illegal_of_quiet word ?_
    rw [sret_eq word hpriv]
    exact hm
  · rw [(imm_eq_iff (n := 0x302) (by omega)).mpr h]
    refine not_illegal_of_quiet word ?_
    rw [mret_eq word hpriv]
    exact hm

theorem system_accepted (hop : Opcode.ofRaw (opcodeOf word) = some .system)
    (hm : m.cpu.trapTaken = false) (h : AcceptsReserved m.cpu.priviledge word) :
    ¬ TrapsIllegal m word := by
  unfold AcceptsReserved at h
  rw [hop] at h
  obtain ⟨hf, _, himm⟩ := h
  exact environment_accepted hop hm hf himm

end

/-- The reserved words that are executed are not refused. -/
theorem accepted_not_refused {m : Vm} {word : BitVec 32} (hm : m.cpu.trapTaken = false)
    (h : AcceptsReserved m.cpu.priviledge word) : ¬ TrapsIllegal m word := by
  have hquiet : (dispatchInstruction m word).cpu.trapTaken = m.cpu.trapTaken →
      ¬ TrapsIllegal m word := fun hq => not_illegal_of_quiet word (hq.trans hm)
  cases hop : Opcode.ofRaw (opcodeOf word) with
  | none =>
    unfold AcceptsReserved at h
    rw [hop] at h
    exact absurd h id
  | some opcode =>
    have h' := h
    unfold AcceptsReserved at h'
    rw [hop] at h'
    cases opcode with
    | jalr => exact hquiet (jalr_quiet hop)
    | opImm => exact hquiet (slli_quiet hop h'.1)
    | opImm32 =>
      refine hquiet (op_imm32_quiet hop ?_)
      rw [funct6_of_funct7]
      rcases h' with ⟨h1, _⟩ | ⟨h5, h7 | h7⟩
      · exact Or.inl h1
      · exact Or.inr ⟨h5, Or.inl (by rw [h7]; decide)⟩
      · exact Or.inr ⟨h5, Or.inr (by rw [h7]; decide)⟩
    | op => exact hquiet (op_word_quiet hop)
    | op32 =>
      obtain ⟨_, h1, h3⟩ := h'
      refine hquiet (op32_quiet hop h1 ?_)
      rcases h3 with h3 | ⟨h3 | h3, _⟩
      · exact Or.inr (Or.inl h3)
      · exact Or.inl h3
      · exact Or.inr (Or.inr h3)
    | system => exact system_accepted hop hm h
    | _ => exact absurd h' id

/-- A word that is not assigned is refused, in whatever state it is met, just
when it is not among those the dispatchers take for another. -/
theorem reserved_words_trap_iff (vm : Vm) (bus : Bus) (word : BitVec 32) :
    (¬ Assigned word → TrapsIllegal (fetched vm bus) word) ↔
      ¬ AcceptsReserved vm.cpu.priviledge word := by
  constructor
  · intro htraps hacc
    exact accepted_not_refused (m := fetched vm bus) rfl hacc
      (htraps (accepted_not_assigned hacc))
  · intro hacc hreserved
    exact reserved_refused (m := fetched vm bus) hreserved hacc

/-- OP with funct7 4 retires without doing anything. -/
theorem reserved_op_retires :
    ¬ Assigned 0x08000033 ∧
      ∀ vm bus, dispatchInstruction (fetched vm bus) 0x08000033 = fetched vm bus ∧
        ¬ TrapsIllegal (fetched vm bus) 0x08000033 := by
  have hacc : ∀ priv, AcceptsReserved priv 0x08000033 := by
    intro priv
    show _ ∧ _ ∧ _
    decide
  refine ⟨accepted_not_assigned (hacc uMode), fun vm bus => ⟨rfl, ?_⟩⟩
  exact accepted_not_refused (m := fetched vm bus) rfl (hacc vm.cpu.priviledge)

end RiscvVm.Proofs
