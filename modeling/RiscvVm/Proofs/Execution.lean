import RiscvVm.Proofs.Instructions

namespace RiscvVm.Proofs

/-- A word whose only exception is that it is illegal. -/
structure Plain (vm : Vm) (word : BitVec 32) : Prop where
  record : exceptionRecord vm word = (excIllegalInstruction, word.setWidth 64)
  access : dataAccess vm word = none

theorem illegal_executes {vm : Vm} {word : BitVec 32} (h : Plain vm word) :
    Executes vm word (vm.illegalInstruction word) := by
  have htrap := @Executes.trap vm word fun acc va hacc => by
    rw [h.access] at hacc
    cases hacc
  rwa [h.record] at htrap

theorem page_fault_executes {vm : Vm} {word : BitVec 32} {acc : AccessType} {va e : BitVec 64}
    {bus : Bus} (hrec : exceptionRecord vm word = (accessTypeToError acc, va))
    (hacc : dataAccess vm word = some (acc, va))
    (ht : translateAddress vm.cpu vm.bus va acc = (bus, .error e)) :
    Executes vm word (Vm.raiseException { vm with bus := bus } e va) := by
  obtain ⟨rfl, rfl⟩ := translate_error ht
  have htrap := @Executes.trap vm word fun acc' va' hacc' => by
    rw [hacc] at hacc'
    cases hacc'
    exact ht
  rwa [hrec] at htrap

/-- Outside SYSTEM and the A extension, an exception is about the data access
or else the word is illegal. -/
theorem record_of_opcode (vm : Vm) (word : BitVec 32)
    (hsys : Opcode.ofRaw (opcodeOf word) ≠ some .system)
    (hamo : Opcode.ofRaw (opcodeOf word) ≠ some .amo) :
    exceptionRecord vm word =
      match dataAccess vm word with
      | some (acc, va) => (accessTypeToError acc, va)
      | none => (excIllegalInstruction, word.setWidth 64) := by
  have hsystem : opcodeOf word ≠ Opcode.code .system := by
    intro h
    rw [h] at hsys
    exact hsys rfl
  have hmis : misalignedAtomic vm word = none := by
    unfold misalignedAtomic
    split
    · exact absurd ‹_› hamo
    · rfl
  unfold exceptionRecord
  rw [if_neg fun h => hsystem h.1, if_neg fun h => hsystem h.1, hmis]
  cases dataAccess vm word <;> rfl

theorem plain_of_opcode {vm : Vm} {word : BitVec 32} {opcode : Option Opcode}
    (hop : Opcode.ofRaw (opcodeOf word) = opcode)
    (h : opcode ∉ [some .system, some .amo, some .load, some .store]) : Plain vm word := by
  simp only [List.mem_cons, List.not_mem_nil, or_false, not_or] at h
  obtain ⟨hsys, hamo, hload, hstore⟩ := h
  subst hop
  have hacc : dataAccess vm word = none := by
    unfold dataAccess
    split
    · exact absurd ‹_› hload
    · exact absurd ‹_› hstore
    · exact absurd ‹_› hamo
    · rfl
  refine ⟨?_, hacc⟩
  rw [record_of_opcode vm word hsys hamo, hacc]

/-- Where the switches on the opcode lead, one after the other. -/
theorem dispatch_word (vm : Vm) (word : BitVec 32) :
    dispatchInstruction vm word =
      match Opcode.ofRaw (opcodeOf word) with
      | some .lui => vm.onCpu (lui · (decodeU word))
      | some .auipc => vm.onCpu (auipc · (decodeU word))
      | some .jal => vm.onCpu (jal · (decodeJ word))
      | some .jalr => vm.onCpu (jalr · (decodeI word))
      | some .branch => vm.onCpu (dispatchBranch · (decodeB word))
      | some .load => dispatchLoad vm (decodeI word)
      | some .store => dispatchStore vm (decodeS word)
      | some .opImm => vm.onCpu (dispatchOpImm · (decodeI word))
      | some .opImm32 => vm.onCpu (dispatchOpImm32 · (decodeI word))
      | some .op => vm.onCpu fun cpu =>
        if (decodeR word).funct7 = 0x01 then dispatchMOp cpu (decodeR word)
        else dispatchOp cpu (decodeR word)
      | some .op32 => vm.onCpu fun cpu =>
        if (decodeR word).funct7 = 0x01 then dispatchMOp32 cpu (decodeR word)
        else dispatchOp32 cpu (decodeR word)
      | some .amo => dispatchAExtension vm (decodeA word)
      | some .miscMem => dispatchMiscMem vm (decodeI word)
      | some .system => dispatchSystem vm (decodeI word)
      | none => vm.illegalInstruction word := by
  unfold dispatchInstruction executeI executeR executeU dispatchJal
  simp only [decode_i_opcode, decode_r_opcode, decode_u_opcode, decode_j_opcode]
  obtain ⟨opcode, hop⟩ : ∃ opcode, Opcode.ofRaw (opcodeOf word) = opcode := ⟨_, rfl⟩
  cases opcode with
  | none => simp only [hop]
  | some opcode => cases opcode <;> simp only [hop, ne_eq, not_true_eq_false, if_false]

section
variable {vm : Vm} {word : BitVec 32}

theorem dispatch_jal_word (hop : Opcode.ofRaw (opcodeOf word) = some .jal) :
    dispatchInstruction vm word = vm.onCpu (jal · (decodeJ word)) := by
  rw [dispatch_word, hop]

theorem dispatch_branch_word (hop : Opcode.ofRaw (opcodeOf word) = some .branch) :
    dispatchInstruction vm word = vm.onCpu (dispatchBranch · (decodeB word)) := by
  rw [dispatch_word, hop]

theorem dispatch_jalr_word (hop : Opcode.ofRaw (opcodeOf word) = some .jalr) :
    dispatchInstruction vm word = vm.onCpu (jalr · (decodeI word)) := by
  rw [dispatch_word, hop]

theorem dispatch_op_imm_word (hop : Opcode.ofRaw (opcodeOf word) = some .opImm) :
    dispatchInstruction vm word = vm.onCpu (dispatchOpImm · (decodeI word)) := by
  rw [dispatch_word, hop]

theorem dispatch_op_imm32_word (hop : Opcode.ofRaw (opcodeOf word) = some .opImm32) :
    dispatchInstruction vm word = vm.onCpu (dispatchOpImm32 · (decodeI word)) := by
  rw [dispatch_word, hop]

theorem dispatch_load_word (hop : Opcode.ofRaw (opcodeOf word) = some .load) :
    dispatchInstruction vm word = dispatchLoad vm (decodeI word) := by
  rw [dispatch_word, hop]

theorem dispatch_misc_mem_word (hop : Opcode.ofRaw (opcodeOf word) = some .miscMem) :
    dispatchInstruction vm word = dispatchMiscMem vm (decodeI word) := by
  rw [dispatch_word, hop]

theorem dispatch_system_word (hop : Opcode.ofRaw (opcodeOf word) = some .system) :
    dispatchInstruction vm word = dispatchSystem vm (decodeI word) := by
  rw [dispatch_word, hop]

theorem dispatch_op_word (hop : Opcode.ofRaw (opcodeOf word) = some .op) :
    dispatchInstruction vm word = vm.onCpu fun cpu =>
      if (decodeR word).funct7 = 0x01 then dispatchMOp cpu (decodeR word)
      else dispatchOp cpu (decodeR word) := by
  rw [dispatch_word, hop]

theorem dispatch_op32_word (hop : Opcode.ofRaw (opcodeOf word) = some .op32) :
    dispatchInstruction vm word = vm.onCpu fun cpu =>
      if (decodeR word).funct7 = 0x01 then dispatchMOp32 cpu (decodeR word)
      else dispatchOp32 cpu (decodeR word) := by
  rw [dispatch_word, hop]

theorem dispatch_store_word (hop : Opcode.ofRaw (opcodeOf word) = some .store) :
    dispatchInstruction vm word = dispatchStore vm (decodeS word) := by
  rw [dispatch_word, hop]

theorem dispatch_amo_word (hop : Opcode.ofRaw (opcodeOf word) = some .amo) :
    dispatchInstruction vm word = dispatchAExtension vm (decodeA word) := by
  rw [dispatch_word, hop]

end

theorem op_executes {vm : Vm} {word : BitVec 32} (h : Plain vm word) :
    Executes vm word (vm.onCpu (dispatchOp · (decodeR word))) := by
  unfold Vm.onCpu dispatchOp
  repeat' split
  all_goals first
    | exact .write _
    | exact .nop
    | exact illegal_executes h

theorem op32_executes {vm : Vm} {word : BitVec 32} (h : Plain vm word) :
    Executes vm word (vm.onCpu (dispatchOp32 · (decodeR word))) := by
  unfold Vm.onCpu dispatchOp32
  repeat' split
  all_goals first
    | exact .write _
    | exact .nop
    | exact illegal_executes h

theorem m_op_executes {vm : Vm} {word : BitVec 32} (h : Plain vm word) :
    Executes vm word (vm.onCpu (dispatchMOp · (decodeR word))) := by
  unfold Vm.onCpu dispatchMOp
  split
  all_goals first
    | exact .write _
    | exact illegal_executes h

theorem m_op32_executes {vm : Vm} {word : BitVec 32} (h : Plain vm word) :
    Executes vm word (vm.onCpu (dispatchMOp32 · (decodeR word))) := by
  unfold Vm.onCpu dispatchMOp32
  split
  all_goals first
    | exact .write _
    | exact illegal_executes h

theorem op_imm_executes {vm : Vm} {word : BitVec 32} (h : Plain vm word) :
    Executes vm word (vm.onCpu (dispatchOpImm · (decodeI word))) := by
  unfold Vm.onCpu dispatchOpImm sri
  repeat' split
  all_goals first
    | exact .write _
    | exact illegal_executes h

theorem op_imm32_executes {vm : Vm} {word : BitVec 32} (h : Plain vm word) :
    Executes vm word (vm.onCpu (dispatchOpImm32 · (decodeI word))) := by
  unfold Vm.onCpu dispatchOpImm32 sriw
  repeat' split
  all_goals first
    | exact .write _
    | exact illegal_executes h

theorem branch_executes {vm : Vm} {word : BitVec 32}
    (hop : Opcode.ofRaw (opcodeOf word) = some .branch) :
    Executes vm word (vm.onCpu (dispatchBranch · (decodeB word))) := by
  have h : Plain vm word := plain_of_opcode hop (by decide)
  have hbranch : ∀ taken : BitVec 64 → BitVec 64 → Bool,
      branchTaken vm.cpu word =
        taken (cpuReadReg vm.cpu (rs1Of word)) (cpuReadReg vm.cpu (rs2Of word)) →
      Executes vm word (vm.onCpu (branchIf taken · (decodeB word))) := by
    intro taken heq
    unfold Vm.onCpu branchIf
    dsimp only
    split
    · rename_i ht
      refine .branch _ ?_
      unfold jumpTarget
      rw [hop, heq]
      exact if_pos ht
    · exact .nop
  unfold Vm.onCpu dispatchBranch
  split
  case h_7 => exact illegal_executes h
  all_goals
    rename_i hf
    rw [decode_b_funct3] at hf
    refine hbranch _ ?_
    unfold branchTaken
    rw [hf]
    rfl

theorem jal_eq (cpu : Cpu) (instruction : JType) :
    jal cpu instruction = { cpuWriteReg cpu instruction.rd (cpu.pc + 4) with
      pc := cpu.pc + instruction.imm, pcWritten := true } := by
  unfold jal
  dsimp only
  rw [write_reg_eq, write_reg_eq]

theorem jal_executes {vm : Vm} {word : BitVec 32}
    (hop : Opcode.ofRaw (opcodeOf word) = some .jal) :
    Executes vm word (vm.onCpu (jal · (decodeJ word))) := by
  unfold Vm.onCpu
  dsimp only
  rw [jal_eq]
  refine .link _ _ ?_
  unfold jumpTarget
  rw [hop]

theorem lui_executes (vm : Vm) (word : BitVec 32) :
    Executes vm word (vm.onCpu (lui · (decodeU word))) := by
  unfold Vm.onCpu lui
  exact .write _

theorem auipc_executes (vm : Vm) (word : BitVec 32) :
    Executes vm word (vm.onCpu (auipc · (decodeU word))) := by
  unfold Vm.onCpu auipc
  exact .write _

theorem op_word_executes {vm : Vm} {word : BitVec 32}
    (hop : Opcode.ofRaw (opcodeOf word) = some .op) :
    Executes vm word (dispatchInstruction vm word) := by
  have h : Plain vm word := plain_of_opcode hop (by decide)
  rw [dispatch_op_word hop]
  unfold Vm.onCpu
  dsimp only
  split
  · exact m_op_executes h
  · exact op_executes h

theorem op32_word_executes {vm : Vm} {word : BitVec 32}
    (hop : Opcode.ofRaw (opcodeOf word) = some .op32) :
    Executes vm word (dispatchInstruction vm word) := by
  have h : Plain vm word := plain_of_opcode hop (by decide)
  rw [dispatch_op32_word hop]
  unfold Vm.onCpu
  dsimp only
  split
  · exact m_op32_executes h
  · exact op32_executes h

theorem jalr_executes {vm : Vm} {word : BitVec 32}
    (hop : Opcode.ofRaw (opcodeOf word) = some .jalr) :
    Executes vm word (vm.onCpu (jalr · (decodeI word))) := by
  refine .link _ _ ?_
  unfold jumpTarget
  rw [hop]
  rfl

theorem load_op_executes {vm : Vm} {word : BitVec 32} (width : Width)
    (extend : BitVec 64 → BitVec 64) {va : BitVec 64}
    (hva : va = (decodeI word).imm + cpuReadReg vm.cpu (decodeI word).rs1)
    (hrec : exceptionRecord vm word = (accessTypeToError .load, va))
    (hacc : dataAccess vm word = some (.load, va)) :
    Executes vm word (loadOp width extend vm (decodeI word)) := by
  unfold loadOp cpuLoad
  dsimp only
  rw [← hva]
  rcases ht : translateAddress vm.cpu vm.bus va .load with ⟨bus, e | p⟩
  · exact page_fault_executes hrec hacc ht
  · exact .load width _ p bus extend hacc ht

theorem load_executes {vm : Vm} {word : BitVec 32}
    (hop : Opcode.ofRaw (opcodeOf word) = some .load) :
    Executes vm word (dispatchLoad vm (decodeI word)) := by
  have hrec := record_of_opcode vm word (by rw [hop]; decide) (by rw [hop]; decide)
  have hacc : funct3Of word ≠ 7 → dataAccess vm word =
      some (.load, (decodeI word).imm + cpuReadReg vm.cpu (decodeI word).rs1) := by
    intro h
    unfold dataAccess
    rw [hop]
    exact if_neg h
  have hload : ∀ width extend, funct3Of word ≠ 7 →
      Executes vm word (loadOp width extend vm (decodeI word)) := by
    intro width extend h
    rw [hacc h] at hrec
    exact load_op_executes width extend rfl hrec (hacc h)
  have hnone : funct3Of word = 7 → Plain vm word := by
    intro h
    have hn : dataAccess vm word = none := by
      unfold dataAccess
      rw [hop]
      exact if_pos h
    rw [hn] at hrec
    exact ⟨hrec, hn⟩
  have hlast : ∀ f : BitVec 3, f ≠ 0 → f ≠ 1 → f ≠ 2 → f ≠ 3 → f ≠ 4 → f ≠ 5 → f ≠ 6 → f = 7 := by
    intro f
    bv_omega
  unfold dispatchLoad
  split
  case h_8 h0 h1 h2 h3 h4 h5 h6 => exact illegal_executes (hnone (hlast _ h0 h1 h2 h3 h4 h5 h6))
  all_goals
    rename_i hf
    rw [decode_i_funct3] at hf
    refine hload _ _ ?_
    rw [hf]
    decide

theorem store_op_executes {vm : Vm} {word : BitVec 32} (width : Width) {va : BitVec 64}
    (hva : va = cpuReadReg vm.cpu (decodeS word).rs1 + (decodeS word).imm)
    (hrec : exceptionRecord vm word = (accessTypeToError .store, va))
    (hacc : dataAccess vm word = some (.store, va)) (hstore : IsStore word)
    (hwidth : storeWidthOf word = some width) :
    Executes vm word (storeOp width vm (decodeS word)) := by
  unfold storeOp cpuStore
  dsimp only
  rw [← hva]
  rcases ht : translateAddress vm.cpu vm.bus va .store with ⟨bus, e | p⟩
  · exact page_fault_executes hrec hacc ht
  · exact .store width _ p _ bus hacc ht hstore hwidth

theorem store_executes {vm : Vm} {word : BitVec 32}
    (hop : Opcode.ofRaw (opcodeOf word) = some .store) :
    Executes vm word (dispatchStore vm (decodeS word)) := by
  have hrec := record_of_opcode vm word (by rw [hop]; decide) (by rw [hop]; decide)
  have hacc : funct3Of word ≤ 3 → dataAccess vm word =
      some (.store, cpuReadReg vm.cpu (decodeS word).rs1 + (decodeS word).imm) := by
    intro h
    unfold dataAccess
    rw [hop]
    exact if_pos h
  have hstore : ∀ width, funct3Of word ≤ 3 → storeWidthOf word = some width →
      Executes vm word (storeOp width vm (decodeS word)) := by
    intro width h hwidth
    rw [hacc h] at hrec
    exact store_op_executes width rfl hrec (hacc h) (of_raw_eq hop) hwidth
  have hnone : ¬ funct3Of word ≤ 3 → Plain vm word := by
    intro h
    have hn : dataAccess vm word = none := by
      unfold dataAccess
      rw [hop]
      exact if_neg h
    rw [hn] at hrec
    exact ⟨hrec, hn⟩
  have hlast : ∀ f : BitVec 3, f ≠ 0 → f ≠ 1 → f ≠ 2 → f ≠ 3 → ¬ f ≤ 3 := by decide
  unfold dispatchStore
  split
  case h_5 h0 h1 h2 h3 => exact illegal_executes (hnone (hlast _ h0 h1 h2 h3))
  all_goals
    rename_i hf
    rw [decode_s_funct3] at hf
    refine hstore _ ?_ ?_
    · rw [hf]
      decide
    · unfold storeWidthOf
      rw [hf]
      rfl

/-- The two descriptions of the width of an atomic access. -/
structure SameWidth {w : Nat} (atomic : AtomicWidth w) (width : Width) : Prop where
  mask : atomic.alignMask = BitVec.ofNat 64 (width.bytes - 1)
  size : atomic.size = BitVec.ofNat 8 width.bytes
  write : ∀ bus p value, atomic.write bus p value = vmBusWrite width bus p (value.setWidth 64)

theorem atomic_w_width : SameWidth atomicW .w32 := by
  refine ⟨rfl, rfl, fun bus p value => ?_⟩
  simp [atomicW, vmBusWrite, BitVec.setWidth_setWidth_of_le]

theorem atomic_d_width : SameWidth atomicD .w64 := by
  refine ⟨rfl, rfl, fun bus p value => ?_⟩
  simp [atomicD, vmBusWrite]

theorem amo_result_some {w : Nat} {funct5 : BitVec 5} (h : isAmo funct5 = true)
    (old rhs : BitVec w) : ∃ new, amoResult funct5 old rhs = some new := by
  simp only [isAmo, List.contains_iff_mem, List.mem_cons, List.not_mem_nil, or_false] at h
  rcases h with rfl | rfl | rfl | rfl | rfl | rfl | rfl | rfl | rfl <;> exact ⟨_, rfl⟩

/-- What an SC compares says which reservation it has found. -/
theorem reservation_matches (r : Reservation) (p : BitVec 64) (size : BitVec 8) :
    (r.physAddr = p ∧ r.valid = true ∧ r.size = size) ↔
      r = { valid := true, physAddr := p, size := size } := by
  cases r
  simp only [Reservation.mk.injEq]
  exact ⟨fun ⟨hp, hv, hz⟩ => ⟨hv, hp, hz⟩, fun ⟨hv, hp, hz⟩ => ⟨hp, hv, hz⟩⟩

section
variable {vm : Vm} {word : BitVec 32} {w : Nat} {atomic : AtomicWidth w} {width : Width}

theorem not_system_of_amo (hop : Opcode.ofRaw (opcodeOf word) = some .amo) :
    opcodeOf word ≠ Opcode.code .system := by
  rw [of_raw_eq hop]
  decide

/-- A word of the A extension that no width or no operation belongs to. -/
theorem plain_of_amo (hop : Opcode.ofRaw (opcodeOf word) = some .amo)
    (h : atomicWidth word = none ∨ atomicAccess word = none) : Plain vm word := by
  have hsys := not_system_of_amo hop
  have hmis : misalignedAtomic vm word = none := by
    unfold misalignedAtomic
    rw [hop]
    rcases h with h | h <;> rw [h]
    cases atomicWidth word with
    | none => rfl
    | some width => exact ite_self none
  have hacc : dataAccess vm word = none := by
    unfold dataAccess
    rw [hop]
    rcases h with h | h <;> rw [h]
    cases atomicWidth word <;> rfl
  refine ⟨?_, hacc⟩
  unfold exceptionRecord
  rw [if_neg fun h => hsys h.1, if_neg fun h => hsys h.1, hmis, hacc]

/-- What the A extension does with its address, by its alignment. -/
theorem amo_misaligned (vm : Vm) {acc : AccessType} (hop : Opcode.ofRaw (opcodeOf word) = some .amo)
    (hwidth : atomicWidth word = some width) (hacc : atomicAccess word = some acc)
    (ha : ¬ AtomicAligned width (cpuReadReg vm.cpu (rs1Of word))) :
    Executes vm word (vm.raiseException (misalignedCause acc) (cpuReadReg vm.cpu (rs1Of word))) := by
  have hsys := not_system_of_amo hop
  have hnone : dataAccess vm word = none := by
    unfold dataAccess
    rw [hop, hwidth, hacc]
    exact if_neg ha
  have hmis : misalignedAtomic vm word = some acc := by
    unfold misalignedAtomic
    rw [hop, hwidth, ← hacc]
    exact if_neg ha
  have htrap := @Executes.trap vm word fun acc va h => by
    rw [hnone] at h
    cases h
  unfold exceptionRecord at htrap
  rwa [if_neg fun h => hsys h.1, if_neg fun h => hsys h.1, hmis, hnone] at htrap

theorem amo_aligned (vm : Vm) {acc : AccessType} (hop : Opcode.ofRaw (opcodeOf word) = some .amo)
    (hwidth : atomicWidth word = some width) (hacc : atomicAccess word = some acc)
    (ha : AtomicAligned width (cpuReadReg vm.cpu (rs1Of word))) :
    dataAccess vm word = some (acc, cpuReadReg vm.cpu (rs1Of word)) ∧
      exceptionRecord vm word = (accessTypeToError acc, cpuReadReg vm.cpu (rs1Of word)) := by
  have hsys := not_system_of_amo hop
  have hdata : dataAccess vm word = some (acc, cpuReadReg vm.cpu (rs1Of word)) := by
    unfold dataAccess
    rw [hop, hwidth, hacc]
    exact if_pos ha
  have hmis : misalignedAtomic vm word = none := by
    unfold misalignedAtomic
    rw [hop, hwidth]
    exact if_pos ha
  refine ⟨hdata, ?_⟩
  unfold exceptionRecord
  rw [if_neg fun h => hsys h.1, if_neg fun h => hsys h.1, hmis, hdata]

/-- The access of an instruction of the A extension: it is refused for its
alignment or by its translation, or `body` is what comes of it. -/
theorem atomic_executes {acc : AccessType} {addr mask cause : BitVec 64}
    {body : Bus → BitVec 64 → Vm} (hop : Opcode.ofRaw (opcodeOf word) = some .amo)
    (hwidth : atomicWidth word = some width) (hacc : atomicAccess word = some acc)
    (haddr : addr = cpuReadReg vm.cpu (rs1Of word))
    (hmask : mask = BitVec.ofNat 64 (width.bytes - 1)) (hcause : cause = misalignedCause acc)
    (hbody : ∀ bus p, dataAccess vm word = some (acc, addr) →
      translateAddress vm.cpu vm.bus addr acc = (bus, .ok p) → Executes vm word (body bus p)) :
    Executes vm word
      (if addr &&& mask ≠ 0 then vm.raiseException cause addr
      else
        match translateAddress vm.cpu vm.bus addr acc with
        | (bus, .error cause) => Vm.raiseException { vm with bus := bus } cause addr
        | (bus, .ok physicalAddress) => body bus physicalAddress) := by
  subst haddr hmask hcause
  split
  · rename_i ha
    exact amo_misaligned vm hop hwidth hacc ha
  rename_i ha
  obtain ⟨hdata, hrec⟩ := amo_aligned vm hop hwidth hacc (Decidable.not_not.mp ha)
  rcases ht : translateAddress vm.cpu vm.bus (cpuReadReg vm.cpu (rs1Of word)) acc with ⟨bus, e | p⟩
  · exact page_fault_executes hrec hdata ht
  · exact hbody bus p hdata ht

theorem amo_executes (hop : Opcode.ofRaw (opcodeOf word) = some .amo)
    (hwidth : atomicWidth word = some width) (hs : SameWidth atomic width)
    (hamo : isAmo (funct5Of word) = true) :
    Executes vm word (amo atomic vm (decodeA word)) := by
  have hacc : atomicAccess word = some .store := if_pos hamo
  unfold amo
  refine atomic_executes hop hwidth hacc rfl hs.mask rfl fun bus p hdata ht => ?_
  obtain ⟨new, hnew⟩ := amo_result_some hamo (atomic.read bus p)
    (atomic.truncate (cpuReadReg vm.cpu (decodeA word).rs2))
  dsimp only
  rw [decode_a_funct5, hnew]
  dsimp only
  rw [hs.size, hs.write]
  exact .amo width _ p _ _ bus hwidth hdata ht ⟨of_raw_eq hop, hamo⟩

theorem lr_executes (hop : Opcode.ofRaw (opcodeOf word) = some .amo)
    (hwidth : atomicWidth word = some width) (hs : SameWidth atomic width)
    (hamo : isAmo (funct5Of word) = false) (hlr : funct5Of word = funct5Lr) :
    Executes vm word (lr atomic vm (decodeA word)) := by
  have hacc : atomicAccess word = if rs2Of word = 0 then some .load else none := by
    unfold atomicAccess
    rw [hamo, hlr]
    rfl
  unfold lr
  dsimp only
  rw [hs.size, decode_a_rs2]
  split
  · rename_i hrs2
    rw [if_neg hrs2] at hacc
    exact illegal_executes (plain_of_amo hop (Or.inr hacc))
  rename_i hrs2
  rw [if_pos (Decidable.not_not.mp hrs2)] at hacc
  refine atomic_executes hop hwidth hacc rfl hs.mask rfl fun bus p hdata ht => ?_
  exact .lr width _ p _ bus ⟨of_raw_eq hop, hlr⟩ hwidth hdata ht

theorem sc_executes (hop : Opcode.ofRaw (opcodeOf word) = some .amo)
    (hwidth : atomicWidth word = some width) (hs : SameWidth atomic width)
    (hamo : isAmo (funct5Of word) = false) (hsc : funct5Of word = funct5Sc) :
    Executes vm word (sc atomic vm (decodeA word)) := by
  have hacc : atomicAccess word = some .store := by
    unfold atomicAccess
    rw [hamo, hsc]
    rfl
  unfold sc
  dsimp only
  rw [hs.size]
  refine atomic_executes hop hwidth hacc rfl hs.mask rfl fun bus p hdata ht => ?_
  have hres := reservation_matches vm.cpu.reservation p (BitVec.ofNat 8 width.bytes)
  split
  · rename_i h
    rw [hs.write]
    simp only [write_reg_reservation]
    exact .sc width _ p _ bus ⟨of_raw_eq hop, hsc⟩ hwidth hdata ht (hres.mp h)
  · rename_i h
    simp only [write_reg_reservation]
    exact .scFailed width _ p bus ⟨of_raw_eq hop, hsc⟩ hwidth hdata ht fun he => h (hres.mpr he)

end

theorem a_extension_executes {vm : Vm} {word : BitVec 32}
    (hop : Opcode.ofRaw (opcodeOf word) = some .amo) :
    Executes vm word (dispatchAExtension vm (decodeA word)) := by
  have hw : funct3Of word = 2 → atomicWidth word = some .w32 := fun h => if_pos h
  have hd : funct3Of word = 3 → atomicWidth word = some .w64 := by
    intro h
    unfold atomicWidth
    rw [h]
    rfl
  have hno : funct3Of word ≠ 2 → funct3Of word ≠ 3 → Plain vm word := by
    intro h2 h3
    refine plain_of_amo hop (Or.inl ?_)
    unfold atomicWidth
    rw [if_neg h2, if_neg h3]
  unfold dispatchAExtension
  split
  · rename_i hamo
    split
    · exact amo_executes hop (hw ‹_›) atomic_w_width hamo
    split
    · exact amo_executes hop (hd ‹_›) atomic_d_width hamo
    · exact illegal_executes (hno ‹_› ‹_›)
  rename_i hamo
  have hamo' : isAmo (funct5Of word) = false := by rwa [Bool.not_eq_true] at hamo
  split
  · rename_i hlr
    split
    · exact lr_executes hop (hw ‹_›) atomic_w_width hamo' hlr
    split
    · exact lr_executes hop (hd ‹_›) atomic_d_width hamo' hlr
    · exact illegal_executes (hno ‹_› ‹_›)
  rename_i hlr
  split
  · rename_i hsc
    split
    · exact sc_executes hop (hw ‹_›) atomic_w_width hamo' hsc
    split
    · exact sc_executes hop (hd ‹_›) atomic_d_width hamo' hsc
    · exact illegal_executes (hno ‹_› ‹_›)
  rename_i hsc
  refine illegal_executes (plain_of_amo hop (Or.inr ?_))
  rw [decode_a_funct5] at hamo hlr hsc
  unfold atomicAccess
  rw [if_neg hamo, if_neg hlr, if_neg hsc]

theorem finish_csr_executes {vm : Vm} {word : BitVec 32} {addr : BitVec 12} {new : BitVec 64}
    (h : Plain vm word) (hreq : csrRequest vm word = some (addr, new)) (old : BitVec 64) :
    Executes vm word (finishCsrWrite vm (decodeI word) addr new old) := by
  unfold finishCsrWrite
  cases hw : csrWrite vm.cpu addr new with
  | none => exact illegal_executes h
  | some cpu => exact .csr addr new old cpu hreq hw

/-- What a CSR instruction comes to: its read is refused, it only reads, or it
asks for a write. -/
inductive CsrOutcome (vm : Vm) (word : BitVec 32) : Vm → Prop
  | refused (hread : csrRead vm (field word 20 12) = none) (hreq : csrRequest vm word = none) :
    CsrOutcome vm word (vm.illegalInstruction word)
  | read (old : BitVec 64) (hread : csrRead vm (field word 20 12) = some old)
    (hreq : csrRequest vm word = none) :
    CsrOutcome vm word { vm with cpu := cpuWriteReg vm.cpu (rdOf word) old }
  | write (new old : BitVec 64) (hreq : csrRequest vm word = some (field word 20 12, new)) :
    CsrOutcome vm word (finishCsrWrite vm (decodeI word) (field word 20 12) new old)

theorem csr_replace_outcome {vm : Vm} {word : BitVec 32} (source : Vm → IType → BitVec 64)
    (hreq : csrRequest vm word =
      if rdOf word = 0 then some (field word 20 12, source vm (decodeI word))
      else (csrRead vm (field word 20 12)).map fun _ =>
        (field word 20 12, source vm (decodeI word))) :
    CsrOutcome vm word (csrReplace source vm (decodeI word)) := by
  unfold csrReplace
  dsimp only
  rw [decode_i_rd, decode_i_raw]
  by_cases hrd : rdOf word = 0
  · rw [if_neg (not_not_intro hrd)]
    rw [if_pos hrd] at hreq
    exact .write _ 0 hreq
  rw [if_pos hrd]
  rw [if_neg hrd] at hreq
  cases hr : csrRead vm (field word 20 12) with
  | none =>
    rw [hr] at hreq
    exact .refused hr hreq
  | some old =>
    rw [hr] at hreq
    exact .write _ old hreq

theorem csr_modify_outcome {vm : Vm} {word : BitVec 32}
    (combine : BitVec 64 → BitVec 64 → BitVec 64) (source : Vm → IType → BitVec 64)
    (hreq : csrRequest vm word =
      if rs1Of word = 0 then none
      else (csrRead vm (field word 20 12)).map fun old =>
        (field word 20 12, combine old (source vm (decodeI word)))) :
    CsrOutcome vm word (csrModify combine source vm (decodeI word)) := by
  unfold csrModify
  dsimp only
  rw [decode_i_rs1, decode_i_raw]
  cases hr : csrRead vm (field word 20 12) with
  | none =>
    rw [hr, Option.map_none, ite_self] at hreq
    exact .refused hr hreq
  | some old =>
    dsimp only
    by_cases hrs1 : rs1Of word = 0
    · rw [if_neg (not_not_intro hrs1)]
      rw [if_pos hrs1] at hreq
      exact .read old hr hreq
    · rw [if_pos hrs1]
      rw [if_neg hrs1, hr] at hreq
      exact .write _ old hreq

/-- The CSR instructions are the SYSTEM words whose funct3 is not 0 or 4. -/
theorem csr_word_outcome (vm : Vm) {word : BitVec 32}
    (hop : Opcode.ofRaw (opcodeOf word) = some .system) (h0 : funct3Of word ≠ 0)
    (h4 : funct3Of word ≠ 4) : CsrOutcome vm word (dispatchSystem vm (decodeI word)) := by
  have hall : ∀ f : BitVec 3, f ≠ 0 → f ≠ 4 →
      f = 1 ∨ f = 2 ∨ f = 3 ∨ f = 5 ∨ f = 6 ∨ f = 7 := by decide
  unfold dispatchSystem
  rw [decode_i_funct3]
  rcases hall _ h0 h4 with h | h | h | h | h | h <;> rw [h]
  · exact csr_replace_outcome fromRs1 (by unfold csrRequest; rw [hop, h]; rfl)
  · exact csr_modify_outcome _ fromRs1 (by unfold csrRequest; rw [hop, h]; rfl)
  · exact csr_modify_outcome _ fromRs1 (by unfold csrRequest; rw [hop, h]; rfl)
  · exact csr_replace_outcome fromZimm (by unfold csrRequest; rw [hop, h]; rfl)
  · exact csr_modify_outcome _ fromZimm (by unfold csrRequest; rw [hop, h]; rfl)
  · exact csr_modify_outcome _ fromZimm (by unfold csrRequest; rw [hop, h]; rfl)

theorem plain_of_system (vm : Vm) {word : BitVec 32}
    (hop : Opcode.ofRaw (opcodeOf word) = some .system) (hcall : ¬ IsEcall word)
    (hbreak : ¬ IsEbreak word) : Plain vm word := by
  have hmis : misalignedAtomic vm word = none := by
    unfold misalignedAtomic
    rw [hop]
  have hacc : dataAccess vm word = none := by
    unfold dataAccess
    rw [hop]
  refine ⟨?_, hacc⟩
  unfold exceptionRecord
  rw [if_neg hcall, if_neg hbreak, hmis, hacc]

theorem ecall_executes {vm : Vm} {word : BitVec 32} (h : IsEcall word) :
    Executes vm word (ecall vm (decodeI word)) := by
  have htrap := @Executes.trap vm word fun acc va hacc => by
    unfold dataAccess at hacc
    rw [h.1] at hacc
    cases hacc
  unfold exceptionRecord at htrap
  rwa [if_pos h] at htrap

theorem ebreak_executes {vm : Vm} {word : BitVec 32} (h : IsEbreak word) :
    Executes vm word (ebreak vm (decodeI word)) := by
  have hcall : ¬ IsEcall word := by
    intro he
    have hz := he.2.2.symm.trans h.2.2
    revert hz
    decide
  have htrap := @Executes.trap vm word fun acc va hacc => by
    unfold dataAccess at hacc
    rw [h.1] at hacc
    cases hacc
  unfold exceptionRecord at htrap
  rwa [if_neg hcall, if_pos h] at htrap

/-- The funct7 of SFENCE.VMA is the top of the immediate of the others. -/
theorem funct7_of_csr (word : BitVec 32) :
    field word 25 7 = (field word 20 12).extractLsb' 5 7 := by
  apply BitVec.eq_of_getLsbD_eq
  intro i hi
  simp only [field, BitVec.getLsbD_extractLsb', hi, show 5 + i < 12 by omega, decide_true,
    Bool.true_and, show 20 + (5 + i) = 25 + i by omega]

theorem fence_of_csr {word : BitVec 32} {csr : BitVec 12} (hcsr : field word 20 12 = csr)
    (h : field word 25 7 = 0x09 ∧ rdOf word = 0) : csr.extractLsb' 5 7 = 0x09 := by
  rw [← hcsr, ← funct7_of_csr]
  exact h.1

/-- The SYSTEM words with funct3 0 are SFENCE.VMA or go by their immediate. -/
theorem system_zero_eq (vm : Vm) {word : BitVec 32} (hf : funct3Of word = 0) :
    dispatchSystem vm (decodeI word) =
      if field word 25 7 = 0x09 ∧ rdOf word = 0 then sfenceVma vm (decodeI word)
      else
        match (decodeI word).imm with
        | 0x000 => ecall vm (decodeI word)
        | 0x001 => ebreak vm (decodeI word)
        | 0x102 => sret vm (decodeI word)
        | 0x302 => mret vm (decodeI word)
        | 0x105 => wfi vm (decodeI word)
        | _ => vm.illegalInstruction word := by
  unfold dispatchSystem
  rw [decode_i_funct3, hf]
  rfl

theorem system_four_eq (vm : Vm) {word : BitVec 32} (hf : funct3Of word = 4) :
    dispatchSystem vm (decodeI word) = vm.illegalInstruction word := by
  unfold dispatchSystem
  rw [decode_i_funct3, hf]
  rfl

theorem system_zero_executes {vm : Vm} {word : BitVec 32}
    (hop : Opcode.ofRaw (opcodeOf word) = some .system) (hf : funct3Of word = 0) :
    Executes vm word (dispatchSystem vm (decodeI word)) := by
  have hcode := of_raw_eq hop
  have hplain := plain_of_system vm hop
  rw [system_zero_eq vm hf]
  split
  · rename_i hfence
    have h : Plain vm word := by
      refine hplain (fun he => ?_) fun he => ?_
      · exact absurd (fence_of_csr he.2.2 hfence) (by decide)
      · exact absurd (fence_of_csr he.2.2 hfence) (by decide)
    unfold sfenceVma
    split
    · exact illegal_executes h
    split
    · exact illegal_executes h
    · exact .nop
  split
  · exact ecall_executes ⟨hcode, hf, (imm_eq_iff (n := 0) (by omega)).mp ‹_›⟩
  · exact ebreak_executes ⟨hcode, hf, (imm_eq_iff (n := 1) (by omega)).mp ‹_›⟩
  · rename_i himm
    have hfield := (imm_eq_iff (n := 0x102) (by omega)).mp himm
    by_cases hpriv : vm.cpu.priviledge = uMode
    · unfold sret
      rw [if_pos hpriv]
      refine illegal_executes (hplain ?_ ?_) <;> rintro ⟨_, _, he⟩ <;> rw [hfield] at he <;>
        revert he <;> decide
    · exact .sret ⟨hcode, hf, hfield⟩ hpriv
  · rename_i himm
    have hfield := (imm_eq_iff (n := 0x302) (by omega)).mp himm
    by_cases hpriv : vm.cpu.priviledge = mMode
    · exact .mret ⟨hcode, hf, hfield⟩ hpriv
    · unfold mret
      rw [if_pos hpriv]
      refine illegal_executes (hplain ?_ ?_) <;> rintro ⟨_, _, he⟩ <;> rw [hfield] at he <;>
        revert he <;> decide
  · exact .nop
  · rename_i h0 h1 _ _ _
    exact illegal_executes (hplain (fun he => h0 ((imm_eq_iff (by omega)).mpr he.2.2))
      fun he => h1 ((imm_eq_iff (by omega)).mpr he.2.2))

theorem system_executes {vm : Vm} {word : BitVec 32}
    (hop : Opcode.ofRaw (opcodeOf word) = some .system) :
    Executes vm word (dispatchSystem vm (decodeI word)) := by
  by_cases h0 : funct3Of word = 0
  · exact system_zero_executes hop h0
  have h : Plain vm word := plain_of_system vm hop (fun he => h0 he.2.1) fun he => h0 he.2.1
  by_cases h4 : funct3Of word = 4
  · rw [system_four_eq vm h4]
    exact illegal_executes h
  have hout := csr_word_outcome vm hop h0 h4
  generalize dispatchSystem vm (decodeI word) = done at hout ⊢
  cases hout with
  | refused => exact illegal_executes h
  | read old => exact .write old
  | write new old hreq => exact finish_csr_executes h hreq old

theorem misc_mem_executes {vm : Vm} {word : BitVec 32} (h : Plain vm word) :
    Executes vm word (dispatchMiscMem vm (decodeI word)) := by
  unfold dispatchMiscMem
  split
  · exact .nop
  · unfold fenceI
    split
    · exact illegal_executes h
    · exact .nop
  · exact illegal_executes h

/-- Every word has one of the effects above. -/
theorem dispatch_executes (vm : Vm) (word : BitVec 32) :
    Executes vm word (dispatchInstruction vm word) := by
  cases hop : Opcode.ofRaw (opcodeOf word) with
  | none =>
    rw [dispatch_word, hop]
    exact illegal_executes (plain_of_opcode hop (by decide))
  | some opcode =>
    cases opcode with
    | lui =>
      rw [dispatch_word, hop]
      exact lui_executes vm word
    | auipc =>
      rw [dispatch_word, hop]
      exact auipc_executes vm word
    | jal =>
      rw [dispatch_jal_word hop]
      exact jal_executes hop
    | branch =>
      rw [dispatch_branch_word hop]
      exact branch_executes hop
    | jalr =>
      rw [dispatch_jalr_word hop]
      exact jalr_executes hop
    | load =>
      rw [dispatch_load_word hop]
      exact load_executes hop
    | store =>
      rw [dispatch_store_word hop]
      exact store_executes hop
    | opImm =>
      rw [dispatch_op_imm_word hop]
      exact op_imm_executes (plain_of_opcode hop (by decide))
    | opImm32 =>
      rw [dispatch_op_imm32_word hop]
      exact op_imm32_executes (plain_of_opcode hop (by decide))
    | op => exact op_word_executes hop
    | op32 => exact op32_word_executes hop
    | system =>
      rw [dispatch_system_word hop]
      exact system_executes hop
    | miscMem =>
      rw [dispatch_misc_mem_word hop]
      exact misc_mem_executes (plain_of_opcode hop (by decide))
    | amo =>
      rw [dispatch_amo_word hop]
      exact a_extension_executes hop

end RiscvVm.Proofs
