import RiscvVm.Proofs.Lenses

namespace RiscvVm.Proofs

/-- The CSR instructions: SYSTEM words whose funct3 is not 0 or 4. -/
def IsCsr (word : BitVec 32) : Prop :=
  opcodeOf word = Opcode.code .system ∧ funct3Of word ≠ 0 ∧ funct3Of word ≠ 4

instance (word : BitVec 32) : Decidable (IsCsr word) := inferInstanceAs (Decidable (_ ∧ _ ∧ _))

def csrOf (word : BitVec 32) : BitVec 12 := field word 20 12

/-- CSRRW and CSRRWI. -/
def IsReplace (word : BitVec 32) : Prop := funct3Of word = 1 ∨ funct3Of word = 5

instance (word : BitVec 32) : Decidable (IsReplace word) := inferInstanceAs (Decidable (_ ∨ _))

/-- The forms with an immediate have bit 2 of funct3 set. -/
def IsImmediate (word : BitVec 32) : Prop := (funct3Of word).getLsbD 2 = true

instance (word : BitVec 32) : Decidable (IsImmediate word) := inferInstanceAs (Decidable (_ = _))

/-- All but CSRRW(I) with `rd = x0` read their CSR. -/
def NeedsRead (word : BitVec 32) : Prop := IsReplace word → rdOf word ≠ 0

instance (word : BitVec 32) : Decidable (NeedsRead word) := inferInstanceAs (Decidable (_ → _))

/-- All but CSRRS(I) and CSRRC(I) with an `rs1` field of 0 write their CSR. -/
def NeedsWrite (word : BitVec 32) : Prop := IsReplace word ∨ rs1Of word ≠ 0

instance (word : BitVec 32) : Decidable (NeedsWrite word) := inferInstanceAs (Decidable (_ ∨ _))

def csrSource (vm : Vm) (word : BitVec 32) : BitVec 64 :=
  if IsImmediate word then (rs1Of word).setWidth 64 else cpuReadReg vm.cpu (rs1Of word)

/-- The value that is written, from the one read and the source. -/
def csrCombine (word : BitVec 32) (old source : BitVec 64) : BitVec 64 :=
  if IsReplace word then source
  else if funct3Of word = 2 ∨ funct3Of word = 6 then old ||| source
  else old &&& ~~~source

/-- The one thing that the six handlers do. -/
def zicsr (vm : Vm) (word : BitVec 32) : Vm :=
  match if NeedsRead word then csrRead vm (csrOf word) else some 0 with
  | none => vm.illegalInstruction word
  | some old =>
    match if NeedsWrite word then
      csrWrite vm.cpu (csrOf word) (csrCombine word old (csrSource vm word)) else some vm.cpu with
    | none => vm.illegalInstruction word
    | some cpu => { vm with cpu := cpuWriteReg cpu (rdOf word) old }

section
variable {vm : Vm} {word : BitVec 32}

theorem csr_replace_zicsr {source : Vm → IType → BitVec 64} (h : IsReplace word)
    (hsource : source vm (decodeI word) = csrSource vm word) :
    csrReplace source vm (decodeI word) = zicsr vm word := by
  have hwrite : NeedsWrite word := .inl h
  have hcombine : ∀ old, csrCombine word old (csrSource vm word) = csrSource vm word :=
    fun old => if_pos h
  unfold csrReplace zicsr
  dsimp only
  simp only [if_pos hwrite, hcombine, hsource, decode_i_rd, decode_i_raw]
  by_cases hrd : rdOf word = 0
  · rw [if_neg (not_not_intro hrd), if_neg fun hr => hr h hrd]
    rfl
  · have hread : NeedsRead word := fun _ => hrd
    rw [if_pos hrd, if_pos hread]
    rfl

theorem csr_modify_zicsr {combine : BitVec 64 → BitVec 64 → BitVec 64}
    {source : Vm → IType → BitVec 64} (h : ¬ IsReplace word)
    (hcombine : ∀ old, combine old (source vm (decodeI word)) =
      csrCombine word old (csrSource vm word)) :
    csrModify combine source vm (decodeI word) = zicsr vm word := by
  have hread : NeedsRead word := fun hr => absurd hr h
  unfold csrModify zicsr
  dsimp only
  simp only [if_pos hread, hcombine, decode_i_rs1, decode_i_rd, decode_i_raw]
  cases hr : csrRead vm (csrOf word) with
  | none =>
    have hnone : csrRead vm (field word 20 12) = none := hr
    rw [hnone]
  | some old =>
    have hsome : csrRead vm (field word 20 12) = some old := hr
    rw [hsome]
    dsimp only
    by_cases hrs1 : rs1Of word = 0
    · rw [if_neg (not_not_intro hrs1), if_neg fun hw => hw.elim h fun hne => hne hrs1]
    · rw [if_pos hrs1, if_pos (.inr hrs1)]
      rfl

/-- The dispatcher takes each CSR word to one of the handlers. -/
theorem dispatch_csr (vm : Vm) (h : IsCsr word) : dispatchInstruction vm word = zicsr vm word := by
  obtain ⟨hop, h0, h4⟩ := h
  have hall : ∀ f : BitVec 3, f ≠ 0 → f ≠ 4 →
      f = 1 ∨ f = 2 ∨ f = 3 ∨ f = 5 ∨ f = 6 ∨ f = 7 := by decide
  rw [dispatch_system_word (of_raw_of_code hop)]
  unfold dispatchSystem
  rw [decode_i_funct3]
  rcases hall _ h0 h4 with hf | hf | hf | hf | hf | hf <;> rw [hf]
  · refine csr_replace_zicsr (.inl hf) ?_
    simp [fromRs1, csrSource, IsImmediate, hf]
  · refine csr_modify_zicsr (by simp [IsReplace, hf]) fun old => ?_
    simp [fromRs1, csrCombine, csrSource, IsImmediate, IsReplace, hf]
  · refine csr_modify_zicsr (by simp [IsReplace, hf]) fun old => ?_
    simp [fromRs1, csrCombine, csrSource, IsImmediate, IsReplace, hf]
  · refine csr_replace_zicsr (.inr hf) ?_
    simp [fromZimm, csrSource, IsImmediate, hf]
  · refine csr_modify_zicsr (by simp [IsReplace, hf]) fun old => ?_
    simp [fromZimm, csrCombine, csrSource, IsImmediate, IsReplace, hf]
  · refine csr_modify_zicsr (by simp [IsReplace, hf]) fun old => ?_
    simp [fromZimm, csrCombine, csrSource, IsImmediate, IsReplace, hf]

end

/-- The read or the write that the instruction needs is refused. -/
def AccessRefused (vm : Vm) (word : BitVec 32) : Prop :=
  (NeedsRead word ∧ csrRead vm (csrOf word) = none) ∨
    (NeedsWrite word ∧ ∀ value, csrWrite vm.cpu (csrOf word) value = none)

/-- The instruction is carried out: `rd` has the value read before the write,
and the CSR is written once, or not at all. -/
structure Performed (vm : Vm) (word : BitVec 32) (done : Vm) (old : BitVec 64) (cpu : Cpu) :
    Prop where
  read : NeedsRead word → csrRead vm (csrOf word) = some old
  written : NeedsWrite word →
    csrWrite vm.cpu (csrOf word) (csrCombine word old (csrSource vm word)) = some cpu
  unwritten : ¬ NeedsWrite word → cpu = vm.cpu
  result : done = { vm with cpu := cpuWriteReg cpu (rdOf word) old }

/-- Whether a write is accepted does not depend on the value. -/
theorem csr_write_none {cpu : Cpu} {addr : BitVec 12} {value : BitVec 64}
    (h : csrWrite cpu addr value = none) (other : BitVec 64) : csrWrite cpu addr other = none := by
  unfold csrWrite at h ⊢
  dsimp only at h ⊢
  split
  · rfl
  rename_i himp
  rw [if_neg himp] at h
  split
  · rfl
  rename_i hcan
  rw [if_neg hcan] at h
  cases hw : (csrTable addr).write <;> rw [hw] at h <;> cases h

theorem read_refused {vm : Vm} {word : BitVec 32}
    (h : (if NeedsRead word then csrRead vm (csrOf word) else some 0) = none) :
    NeedsRead word ∧ csrRead vm (csrOf word) = none := by
  by_cases hr : NeedsRead word
  · rw [if_pos hr] at h
    exact ⟨hr, h⟩
  · rw [if_neg hr] at h
    cases h

theorem zicsr_cases (vm : Vm) (word : BitVec 32) :
    (AccessRefused vm word ∧ zicsr vm word = vm.illegalInstruction word) ∨
    ¬ AccessRefused vm word ∧ ∃ old cpu, Performed vm word (zicsr vm word) old cpu := by
  unfold zicsr
  cases hread : (if NeedsRead word then csrRead vm (csrOf word) else some 0) with
  | none => exact .inl ⟨.inl (read_refused hread), rfl⟩
  | some old =>
    have hold : NeedsRead word → csrRead vm (csrOf word) = some old := by
      intro hr
      rwa [if_pos hr] at hread
    dsimp only
    by_cases hw : NeedsWrite word
    · simp only [if_pos hw]
      cases hwrite : csrWrite vm.cpu (csrOf word) (csrCombine word old (csrSource vm word)) with
      | none => exact .inl ⟨.inr ⟨hw, csr_write_none hwrite⟩, rfl⟩
      | some cpu =>
        refine .inr ⟨?_, old, cpu, hold, fun _ => hwrite, fun hno => absurd hw hno, rfl⟩
        rintro (⟨hr, hnone⟩ | ⟨_, hnone⟩)
        · rw [hold hr] at hnone
          cases hnone
        · rw [hnone] at hwrite
          cases hwrite
    · simp only [if_neg hw]
      refine .inr ⟨?_, old, vm.cpu, hold, fun hyes => absurd hyes hw, fun _ => rfl, rfl⟩
      rintro (⟨hr, hnone⟩ | ⟨hyes, _⟩)
      · rw [hold hr] at hnone
        cases hnone
      · exact hw hyes

theorem zicsr_read_only {vm : Vm} {word : BitVec 32} (hno : ¬ NeedsWrite word) {old : BitVec 64}
    (hread : csrRead vm (csrOf word) = some old) :
    zicsr vm word = { vm with cpu := cpuWriteReg vm.cpu (rdOf word) old } := by
  have hr : NeedsRead word := fun hrep => absurd (.inl hrep) hno
  rw [zicsr, if_pos hr, hread]
  simp only [if_neg hno]

/-- The CSRs that taking a trap writes. -/
def trapCsrs : List (BitVec 12) :=
  [csrMstatus, csrMepc, csrMcause, csrMtval, csrSepc, csrScause, csrStval]

theorem raise_exception_csrs (cpu : Cpu) (cause tvalue : BitVec 64) {a : BitVec 12}
    (ha : a ∉ trapCsrs) : (raiseException cpu cause tvalue).csrs a = cpu.csrs a := by
  have hne : a ≠ csrMstatus ∧ a ≠ csrMepc ∧ a ≠ csrMcause ∧ a ≠ csrMtval ∧ a ≠ csrSepc ∧
      a ≠ csrScause ∧ a ≠ csrStval := by simpa [trapCsrs] using ha
  obtain ⟨hstatus, hmepc, hmcause, hmtval, hsepc, hscause, hstval⟩ := hne
  unfold raiseException
  dsimp only
  split
  · refine (trap_to_s_csrs cpu cause tvalue a).trans ?_
    rw [if_neg hstatus, if_neg hstval, if_neg hscause, if_neg hsepc]
  · refine (trap_to_m_csrs cpu cause tvalue a).trans ?_
    rw [if_neg hstatus, if_neg hmtval, if_neg hmcause, if_neg hmepc]

/-- The machine but for the two trap values. -/
def eraseTval (vm : Vm) : Vm := vm.onCpu fun cpu => (cpu.setCsr csrMtval 0).setCsr csrStval 0

/-- The word whose source register holds the immediate of the first. -/
structure RegisterForm (vm : Vm) (word other : BitVec 32) : Prop where
  csr : IsCsr other
  immediate : IsImmediate word
  nonzero : rs1Of word ≠ 0
  funct3 : funct3Of word = funct3Of other + 4
  rd : rdOf other = rdOf word
  addr : csrOf other = csrOf word
  source : rs1Of other ≠ 0
  holds : cpuReadReg vm.cpu (rs1Of other) = (rs1Of word).setWidth 64

theorem erase_trap_value (vm : Vm) (cause t u : BitVec 64) :
    eraseTval (vm.raiseException cause t) = eraseTval (vm.raiseException cause u) := by
  have hs : (((trapToS vm.cpu cause t).setCsr csrMtval 0).setCsr csrStval 0).csrs =
      (((trapToS vm.cpu cause u).setCsr csrMtval 0).setCsr csrStval 0).csrs := by
    funext a
    simp only [set_csr_csrs, trap_to_s_csrs]
    by_cases ha : a = csrStval
    · rw [if_pos ha, if_pos ha]
    · simp only [if_neg ha]
  have hm : (((trapToM vm.cpu cause t).setCsr csrMtval 0).setCsr csrStval 0).csrs =
      (((trapToM vm.cpu cause u).setCsr csrMtval 0).setCsr csrStval 0).csrs := by
    funext a
    simp only [set_csr_csrs, trap_to_m_csrs]
    by_cases ha : a = csrMtval
    · simp only [if_pos ha]
    · simp only [if_neg ha]
  unfold eraseTval Vm.raiseException Vm.onCpu raiseException
  dsimp only
  split
  · exact congrArg (fun csrs => { vm with cpu := { trapToS vm.cpu cause t with csrs := csrs } }) hs
  · exact congrArg (fun csrs => { vm with cpu := { trapToM vm.cpu cause t with csrs := csrs } }) hm

namespace RegisterForm

variable {vm : Vm} {word other : BitVec 32} (h : RegisterForm vm word other)
include h

theorem funct3_cases : funct3Of other = 1 ∧ funct3Of word = 5 ∨
    funct3Of other = 2 ∧ funct3Of word = 6 ∨ funct3Of other = 3 ∧ funct3Of word = 7 := by
  have hall : ∀ f : BitVec 3, f ≠ 0 → (f + 4).getLsbD 2 = true → f = 1 ∨ f = 2 ∨ f = 3 := by
    decide
  have himm : (funct3Of other + 4).getLsbD 2 = true := h.funct3 ▸ h.immediate
  rcases hall _ h.csr.2.1 himm with hf | hf | hf
  · exact .inl ⟨hf, by rw [h.funct3, hf]; rfl⟩
  · exact .inr (.inl ⟨hf, by rw [h.funct3, hf]; rfl⟩)
  · exact .inr (.inr ⟨hf, by rw [h.funct3, hf]; rfl⟩)

theorem replace_iff : IsReplace other ↔ IsReplace word := by
  unfold IsReplace
  rcases h.funct3_cases with ⟨ho, hw⟩ | ⟨ho, hw⟩ | ⟨ho, hw⟩ <;> simp [ho, hw]

theorem needs_read_iff : NeedsRead other ↔ NeedsRead word := by
  rw [NeedsRead, NeedsRead, h.replace_iff, h.rd]

theorem needs_write : NeedsWrite other ∧ NeedsWrite word := ⟨.inr h.source, .inr h.nonzero⟩

theorem combine_eq (old : BitVec 64) :
    csrCombine other old (csrSource vm other) = csrCombine word old (csrSource vm word) := by
  have hreg : ¬ IsImmediate other := by
    unfold IsImmediate
    rcases h.funct3_cases with ⟨ho, _⟩ | ⟨ho, _⟩ | ⟨ho, _⟩ <;> simp [ho]
  have hsource : csrSource vm other = csrSource vm word := by
    rw [csrSource, csrSource, if_neg hreg, if_pos h.immediate, h.holds]
  rw [hsource, csrCombine, csrCombine]
  rcases h.funct3_cases with ⟨ho, hw⟩ | ⟨ho, hw⟩ | ⟨ho, hw⟩ <;> simp [IsReplace, ho, hw]

theorem refused_iff : AccessRefused vm other ↔ AccessRefused vm word := by
  rw [AccessRefused, AccessRefused, h.addr, h.needs_read_iff]
  simp only [h.needs_write.1, h.needs_write.2]

/-- Both forms read the same value and make the same write. -/
theorem zicsr_eq (hok : ¬ AccessRefused vm word) : zicsr vm other = zicsr vm word := by
  unfold zicsr
  simp only [h.needs_read_iff, h.addr, h.combine_eq, h.rd, if_pos h.needs_write.1,
    if_pos h.needs_write.2]
  cases hread : (if NeedsRead word then csrRead vm (csrOf word) else some 0) with
  | none => exact absurd (.inl (read_refused hread)) hok
  | some old =>
    dsimp only
    cases hwrite : csrWrite vm.cpu (csrOf word) (csrCombine word old (csrSource vm word)) with
    | none => exact absurd (.inr ⟨h.needs_write.2, csr_write_none hwrite⟩) hok
    | some cpu => rfl

theorem zicsr_erased : eraseTval (zicsr vm other) = eraseTval (zicsr vm word) := by
  rcases zicsr_cases vm word with ⟨href, he⟩ | ⟨hok, _⟩
  · rcases zicsr_cases vm other with ⟨_, heo⟩ | ⟨hno, _⟩
    · rw [he, heo]
      exact erase_trap_value vm _ _ _
    · exact absurd (h.refused_iff.mpr href) hno
  · rw [h.zicsr_eq hok]

end RegisterForm


/-- What an instruction of Zicsr does. -/
structure CsrSemantics (vm : Vm) (word : BitVec 32) : Prop where
  outcome : AccessRefused vm word ∧ dispatchInstruction vm word = vm.illegalInstruction word ∨
    ¬ AccessRefused vm word ∧ ∃ old cpu, Performed vm word (dispatchInstruction vm word) old cpu
  /-- Within a step, where no trap has been taken before. -/
  illegal_iff : vm.cpu.trapTaken = false →
    ((dispatchInstruction vm word).cpu.trapTaken = true ↔ AccessRefused vm word)
  illegal_frame : AccessRefused vm word →
    (dispatchInstruction vm word).cpu.regs = vm.cpu.regs ∧
    (dispatchInstruction vm word).bus = vm.bus ∧
    ∀ a ∉ trapCsrs, (dispatchInstruction vm word).cpu.csrs a = vm.cpu.csrs a
  read_only : ¬ NeedsWrite word → ∀ old, csrRead vm (csrOf word) = some old →
    dispatchInstruction vm word = { vm with cpu := cpuWriteReg vm.cpu (rdOf word) old }
  write_only : ¬ NeedsRead word → ∀ cpu,
    csrWrite vm.cpu (csrOf word) (csrSource vm word) = some cpu →
    dispatchInstruction vm word = { vm with cpu := cpu }
  immediate : ∀ other, RegisterForm vm word other →
    (AccessRefused vm other ↔ AccessRefused vm word) ∧
    (¬ AccessRefused vm word → dispatchInstruction vm other = dispatchInstruction vm word) ∧
    eraseTval (dispatchInstruction vm other) = eraseTval (dispatchInstruction vm word)

theorem Performed.trap_taken {vm done : Vm} {word : BitVec 32} {old : BitVec 64} {cpu : Cpu}
    (h : Performed vm word done old cpu) : done.cpu.trapTaken = vm.cpu.trapTaken := by
  rw [h.result, write_reg_trap_taken]
  by_cases hw : NeedsWrite word
  · rw [writes_eq (csr_write_cases (h.written hw)).2]
  · rw [h.unwritten hw]

/-- Every CSR instruction in every state reads, writes, or is illegal as its
fields and the two accessors say. -/
theorem zicsr_semantics (vm : Vm) {word : BitVec 32} (h : IsCsr word) : CsrSemantics vm word := by
  have hdispatch := dispatch_csr vm h
  have hcases := zicsr_cases vm word
  rw [← hdispatch] at hcases
  constructor
  case outcome => exact hcases
  case illegal_iff =>
    intro hf
    rcases hcases with ⟨href, he⟩ | ⟨hok, old, cpu, hdone⟩
    · rw [he]
      exact ⟨fun _ => href, fun _ => raise_exception_taken _ _ _⟩
    · rw [hdone.trap_taken, hf]
      exact ⟨fun hc => absurd hc (by decide), fun href => absurd href hok⟩
  case illegal_frame =>
    intro href
    rcases hcases with ⟨_, he⟩ | ⟨hok, _⟩
    · rw [he]
      exact ⟨(raise_exception_frame _ _ _).regs, rfl, fun a ha => raise_exception_csrs _ _ _ ha⟩
    · exact absurd href hok
  case read_only =>
    intro hno old hread
    rw [hdispatch, zicsr_read_only hno hread]
  case write_only =>
    intro hno cpu hwrite
    obtain ⟨hrep, hne⟩ := Classical.not_imp.mp hno
    have hrd : rdOf word = 0 := Classical.not_not.mp hne
    have hw : NeedsWrite word := .inl hrep
    have hcombine : csrCombine word 0 (csrSource vm word) = csrSource vm word := if_pos hrep
    rw [hdispatch, zicsr, if_neg hno]
    dsimp only
    rw [if_pos hw, hcombine, hwrite, hrd]
    rfl
  case immediate =>
    intro other hform
    rw [hdispatch, dispatch_csr vm hform.csr]
    exact ⟨hform.refused_iff, hform.zicsr_eq, hform.zicsr_erased⟩

/-- `csrrs x5, mhartid, x0` after reset. -/
theorem mhartid_read_only :
    IsCsr 0xF14022F3 ∧ dispatchInstruction (vmInit (ramOf [])) 0xF14022F3 =
      { vmInit (ramOf []) with cpu := cpuWriteReg (vmInit (ramOf [])).cpu 5 0 } :=
  ⟨by decide, (zicsr_semantics (vmInit (ramOf [])) (by decide)).read_only (by decide) 0 rfl⟩

end RiscvVm.Proofs
