import RiscvVm.Proofs.Disassembler
import RiscvVm.Proofs.Zicsr

namespace RiscvVm.Proofs
open Encodings (funct6 funct7)

section
variable {word : BitVec 32} {addr : BitVec 64}

/-- The immediates of ECALL, EBREAK, SRET, MRET and WFI. -/
def environmentImms : List (BitVec 12) := [0x000, 0x001, 0x102, 0x302, 0x105]

theorem system_alt_known {imm : BitVec 12} (h : systemAltMnemonics imm ≠ none) :
    imm ∈ environmentImms := by
  unfold systemAltMnemonics at h
  split at h
  case h_6 => exact absurd rfl h
  all_goals decide

theorem environment_handler {n : Nat} {mnemonic : String} {handler : Vm → IType → Vm}
    (hop : Opcode.ofRaw (opcodeOf word) = some .system) (hf : funct3Of word = 0)
    (hn : n < 2048) (himm : csrOf word = BitVec.ofNat 12 n)
    (hfence : (BitVec.ofNat 12 n).extractLsb' 5 7 ≠ 0x09)
    (hmatch : (match BitVec.ofNat 64 n with
      | 0x000 => some (bareForm word "ecall" ecall)
      | 0x001 => some (bareForm word "ebreak" ebreak)
      | 0x102 => some (bareForm word "sret" sret)
      | 0x302 => some (bareForm word "mret" mret)
      | 0x105 => some (bareForm word "wfi" wfi)
      | _ => none) = some (bareForm word mnemonic handler)) :
    handlerOf word addr = some (bareForm word mnemonic handler) := by
  have hno : ¬ (field word 25 7 = 0x09 ∧ rdOf word = 0) :=
    fun h => hfence (fence_of_csr himm h)
  unfold handlerOf
  rw [hop]
  change systemHandler word = _
  unfold systemHandler
  rw [hf, (imm_eq_iff hn).mpr himm]
  exact (if_neg hno).trans hmatch

theorem environment_agrees_iff (hop : Opcode.ofRaw (opcodeOf word) = some .system)
    (hf : funct3Of word = 0) : Agrees word addr ↔ csrOf word ∈ environmentImms := by
  have hline : lineOf word addr = .instruction (systemAltMnemonics (csrOf word)) [] := by
    unfold lineOf
    rw [hop]
    exact if_pos hf
  constructor
  · intro ha
    apply system_alt_known
    intro hnull
    rw [hnull] at hline
    exact ha.printable _ hline
  · intro hmem
    simp only [environmentImms, List.mem_cons, List.not_mem_nil, or_false] at hmem
    have hexec : ¬ Rejected word := by
      intro hrej
      refine environment_accepted (m := unloaded) hop rfl hf ?_ (hrej unloaded)
      rcases hmem with h | h | h | h | h
      · exact Or.inl h
      · exact Or.inr (Or.inl h)
      · exact Or.inr (Or.inr (Or.inr (Or.inl ⟨h, by decide⟩)))
      · exact Or.inr (Or.inr (Or.inr (Or.inr ⟨h, rfl⟩)))
      · exact Or.inr (Or.inr (Or.inl h))
    rcases hmem with h | h | h | h | h
    all_goals rw [h] at hline
    · exact agrees_of_handler (environment_handler hop hf (n := 0x000) (by omega) h (by decide) rfl)
        hline hexec
    · exact agrees_of_handler (environment_handler hop hf (n := 0x001) (by omega) h (by decide) rfl)
        hline hexec
    · exact agrees_of_handler (environment_handler hop hf (n := 0x102) (by omega) h (by decide) rfl)
        hline hexec
    · exact agrees_of_handler (environment_handler hop hf (n := 0x302) (by omega) h (by decide) rfl)
        hline hexec
    · exact agrees_of_handler (environment_handler hop hf (n := 0x105) (by omega) h (by decide) rfl)
        hline hexec

/-- No operation has funct3 4. -/
theorem system_four_agrees (hop : Opcode.ofRaw (opcodeOf word) = some .system)
    (hf : funct3Of word = 4) : Agrees word addr := by
  apply agrees_of_word
  · intro vm
    unfold TrapsIllegal
    rw [dispatch_system_word hop]
    exact system_four_eq vm hf
  · unfold lineOf
    rw [hop]
    simp only [decode_i_funct3, hf]
    rfl

/-- The line of a CSR word has the operands of its handler, but that the number
of the CSR is the immediate. -/
theorem csr_line_handler (h : IsCsr word) : ∃ mnemonic source handler,
    lineOf word addr = .instruction (some mnemonic)
      [.register (rdOf word), .hexadecimal ((decodeI word).imm.setWidth 16).toNat, source] ∧
    handlerOf word addr = some (csrForm word mnemonic source handler) := by
  obtain ⟨hcode, h0, h4⟩ := h
  have hop := of_raw_of_code hcode
  have hh : handlerOf word addr = systemHandler word := by
    unfold handlerOf
    rw [hop]
  rw [hh]
  unfold lineOf systemHandler
  rw [hop]
  simp only [decode_i_funct3]
  rcases funct3_values (funct3Of word) with hf | hf | hf | hf | hf | hf | hf | hf
  case inl => exact absurd hf h0
  case inr.inr.inr.inr.inl => exact absurd hf h4
  all_goals simp only [hf]
  · exact ⟨"csrrw", .register (rs1Of word), csrrw, rfl, rfl⟩
  · exact ⟨"csrrs", .register (rs1Of word), csrrs, rfl, rfl⟩
  · exact ⟨"csrrc", .register (rs1Of word), csrrc, rfl, rfl⟩
  · exact ⟨"csrrwi", .decimal (rs1Of word).toNat, csrrwi, rfl, rfl⟩
  · exact ⟨"csrrsi", .decimal (rs1Of word).toNat, csrrsi, rfl, rfl⟩
  · exact ⟨"csrrci", .decimal (rs1Of word).toNat, csrrci, rfl, rfl⟩

/-- From 0x800 on the immediate is negative, and the line has more digits than
the number. -/
theorem printed_csr_iff (csr : BitVec 12) :
    ((csr.signExtend 64).setWidth 16).toNat = csr.toNat ↔ csr < 0x800 := by
  have hcsr := csr.isLt
  rw [BitVec.toNat_setWidth, BitVec.toNat_signExtend, BitVec.toNat_setWidth, BitVec.msb_eq_decide,
    BitVec.lt_def]
  change _ ↔ csr.toNat < 2048
  by_cases h : 2 ^ (12 - 1) ≤ csr.toNat
  · rw [if_pos (decide_eq_true h)]
    omega
  · rw [if_neg (by simpa using h)]
    omega

/-- A CSR that does not exist can be neither read nor written. -/
theorem unimplemented_rejected (h : IsCsr word) (himp : (csrTable (csrOf word)).implemented = false) :
    Rejected word := by
  intro vm
  have hread : csrRead vm (csrOf word) = none := by
    unfold csrRead
    dsimp only
    rw [himp]
    rfl
  have hwrite : ∀ value, csrWrite vm.cpu (csrOf word) value = none := by
    intro value
    unfold csrWrite
    dsimp only
    rw [himp]
    rfl
  have href : AccessRefused vm word := by
    by_cases hneeds : NeedsRead word
    · exact Or.inl ⟨hneeds, hread⟩
    · exact Or.inr ⟨Or.inl (Classical.not_imp.mp hneeds).1, hwrite⟩
  rcases zicsr_cases vm word with ⟨_, he⟩ | ⟨hok, _⟩
  · exact (dispatch_csr vm h).trans he
  · exact absurd href hok

/-- The CSRs below 0x800 can be read and written in M-mode. -/
theorem low_csr_accessible {csr : BitVec 12} (himp : (csrTable csr).implemented = true)
    (hlow : csr < 0x800) :
    csrCanRead unloaded.cpu csr mMode = true ∧ csrCanWrite csr mMode = true := by
  have hall : (csrLoad.map Prod.fst).all (fun a => !decide (a < 0x800) ||
      csrCanRead unloaded.cpu a mMode && csrCanWrite a mMode) = true := by decide
  have hmem : csr ∈ csrLoad.map Prod.fst := List.mem_map_of_mem (table_mem himp)
  have hcsr := List.all_eq_true.mp hall csr hmem
  rw [decide_eq_true hlow] at hcsr
  simpa using hcsr

theorem low_csr_not_rejected (h : IsCsr word) (himp : (csrTable (csrOf word)).implemented = true)
    (hlow : csrOf word < 0x800) : ¬ Rejected word := by
  obtain ⟨hcanr, hcanw⟩ := low_csr_accessible himp hlow
  have hread : csrRead unloaded (csrOf word) ≠ none := by
    have hcan : csrCanRead unloaded.cpu (csrOf word) unloaded.cpu.priviledge = true := hcanr
    unfold csrRead
    dsimp only
    rw [himp, hcan]
    cases (csrTable (csrOf word)).read <;> exact Option.some_ne_none _
  have hok : ¬ AccessRefused unloaded word := by
    rintro (⟨_, hnone⟩ | ⟨_, hnone⟩)
    · exact hread hnone
    · obtain ⟨cpu, hcpu⟩ := csr_write_some unloaded.cpu 0 himp hcanw
      rw [hnone] at hcpu
      cases hcpu
  rcases zicsr_cases unloaded word with ⟨href, _⟩ | ⟨_, old, cpu, hdone⟩
  · exact absurd href hok
  · apply quiet_not_rejected
    rw [dispatch_csr unloaded h]
    exact hdone.trap_taken

theorem csr_agrees_iff (h : IsCsr word) :
    Agrees word addr ↔ csrOf word < 0x800 ∧ (csrTable (csrOf word)).implemented = true := by
  obtain ⟨mnemonic, source, handler, hline, hh⟩ := @csr_line_handler word addr h
  rw [decode_i_imm] at hline
  constructor
  · intro ha
    obtain ⟨named, hnamed, _, hops⟩ := ha.named hline
    cases hh.symm.trans hnamed
    have hnumber : (((csrOf word).signExtend 64).setWidth 16).toNat = (csrOf word).toNat := by
      injection hops with _ hops
      injection hops with hnumber _
      injection hnumber
    refine ⟨(printed_csr_iff _).mp hnumber, ?_⟩
    apply Classical.byContradiction
    intro himp
    have hword := ha.rejected (unimplemented_rejected h (Bool.eq_false_iff.mpr himp))
    rw [hline] at hword
    cases hword
  · rintro ⟨hlow, himp⟩
    refine agrees_of_handler hh (hline.trans ?_) (low_csr_not_rejected h himp hlow)
    have hnumber := (printed_csr_iff _).mpr hlow
    unfold csrOf at hnumber
    rw [hnumber]
    rfl

end

/-- Where a line is right: of the tables without NULL, without the M extension
and without SRAIW, and of the CSRs that exist below 0x800. -/
def Matching (word : BitVec 32) : Prop :=
  match Opcode.ofRaw (opcodeOf word) with
  | some .load => funct3Of word ≠ 7
  | some .store => funct3Of word ≤ 3
  | some .branch => funct3Of word ≠ 2 ∧ funct3Of word ≠ 3
  | some .op =>
    funct7 word = 0 ∨ (funct7 word = 0b0100000 ∧ (funct3Of word = 0 ∨ funct3Of word = 5))
  | some .op32 =>
    (funct7 word = 0 ∧ (funct3Of word = 0 ∨ funct3Of word = 1 ∨ funct3Of word = 5)) ∨
      (funct7 word = 0b0100000 ∧ (funct3Of word = 0 ∨ funct3Of word = 5))
  | some .opImm32 =>
    funct3Of word = 0 ∨ funct3Of word = 1 ∨
      (funct3Of word = 5 ∧ (funct7 word = 0 ∨
        (funct7 word ≠ 0b0010000 ∧ funct6 word ≠ 0 ∧ funct6 word ≠ 0b010000)))
  | some .miscMem => Encodings.MiscMem word
  | some .system =>
    if funct3Of word = 0 then csrOf word ∈ environmentImms
    else
      funct3Of word = 4 ∨
        (csrOf word < 0x800 ∧ (csrTable (csrOf word)).implemented = true)
  | _ => True

theorem system_agrees_iff {word : BitVec 32} {addr : BitVec 64}
    (hop : Opcode.ofRaw (opcodeOf word) = some .system) :
    Agrees word addr ↔ Matching word := by
  unfold Matching
  rw [hop]
  dsimp only
  by_cases h0 : funct3Of word = 0
  · rw [if_pos h0]
    exact environment_agrees_iff hop h0
  rw [if_neg h0]
  by_cases h4 : funct3Of word = 4
  · exact ⟨fun _ => Or.inl h4, fun _ => system_four_agrees hop h4⟩
  · rw [csr_agrees_iff ⟨of_raw_eq hop, h0, h4⟩]
    constructor
    · exact Or.inr
    · rintro (hf | hcsr)
      · exact absurd hf h4
      · exact hcsr

theorem lines_agree_iff {word : BitVec 32} {opcode : Opcode}
    (hop : Opcode.ofRaw (opcodeOf word) = some opcode) (hamo : opcode ≠ .amo) (addr : BitVec 64) :
    Agrees word addr ↔ Matching word := by
  cases opcode with
  | system => exact system_agrees_iff hop
  | amo => exact absurd rfl hamo
  | lui =>
    simp only [Matching, hop, iff_true]
    exact jump_agrees (Or.inl hop)
  | auipc =>
    simp only [Matching, hop, iff_true]
    exact jump_agrees (Or.inr (Or.inl hop))
  | jal =>
    simp only [Matching, hop, iff_true]
    exact jump_agrees (Or.inr (Or.inr (Or.inl hop)))
  | jalr =>
    simp only [Matching, hop, iff_true]
    exact jump_agrees (Or.inr (Or.inr (Or.inr hop)))
  | opImm =>
    simp only [Matching, hop, iff_true]
    exact op_imm_agrees hop
  | load =>
    simp only [Matching, hop]
    exact load_agrees_iff hop
  | store =>
    simp only [Matching, hop]
    exact store_agrees_iff hop
  | branch =>
    simp only [Matching, hop]
    exact branch_agrees_iff hop
  | op =>
    simp only [Matching, hop]
    exact op_agrees_iff hop
  | op32 =>
    simp only [Matching, hop]
    exact op32_agrees_iff hop
  | opImm32 =>
    simp only [Matching, hop]
    exact op_imm32_agrees_iff hop
  | miscMem =>
    simp only [Matching, hop]
    exact misc_mem_agrees_iff hop

/-- `add x3, x1, x2` -/
theorem add_line_agrees : Agrees 0x002081B3 0x80000000 :=
  (@lines_agree_iff _ .op (by decide) (by decide) _).mpr (Or.inl (by decide))

/-- `mul x3, x1, x2` is shown as `sub x3, x1, x2`. -/
theorem mul_shown_as_sub :
    (∀ addr, lineOf 0x022081B3 addr =
      .instruction (some "sub") [.register 3, .register 1, .register 2]) ∧
    (∀ vm, dispatchInstruction vm 0x022081B3 = vm.onCpu (mul · (decodeR 0x022081B3))) ∧
    ¬ ∀ (word : BitVec 32) (opcode : Opcode), Opcode.ofRaw (opcodeOf word) = some opcode →
      opcode ≠ .amo → ∀ addr, Agrees word addr := by
  have hline : ∀ addr, lineOf 0x022081B3 addr =
      .instruction (some "sub") [.register 3, .register 1, .register 2] := fun _ => rfl
  have hh : handlerOf 0x022081B3 0 = some (registerForm 0x022081B3 "mul" mul) := rfl
  refine ⟨hline, handler_runs hh, fun hall => ?_⟩
  have hop : Opcode.ofRaw (opcodeOf 0x022081B3) = some .op := by decide
  obtain ⟨h, hcalled, hname, _⟩ := (hall _ _ hop (by decide) 0).named (hline 0)
  cases hh.symm.trans hcalled
  have hmul : some "sub" = some "mul" := hname
  exact absurd hmul (by decide)

end RiscvVm.Proofs
