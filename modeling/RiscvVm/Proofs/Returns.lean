import RiscvVm.Proofs.Alignment
import RiscvVm.Proofs.Atomics
import RiscvVm.Proofs.ReadBack

namespace RiscvVm.Proofs

section
variable {vm : Vm} {word : BitVec 32}

/-- The dispatcher takes a trap return to its handler; it is no SFENCE.VMA. -/
theorem dispatch_sret (vm : Vm) (h : IsSret word) :
    dispatchInstruction vm word = sret vm (decodeI word) := by
  obtain ⟨hop, hf, hcsr⟩ := h
  have hno : ¬ (field word 25 7 = 0x09 ∧ rdOf word = 0) :=
    fun hf => absurd (fence_of_csr hcsr hf) (by decide)
  have himm : (decodeI word).imm = 0x102 := (imm_eq_iff (n := 0x102) (by omega)).mpr hcsr
  rw [dispatch_system_word (of_raw_of_code hop), system_zero_eq vm hf, if_neg hno, himm]
  rfl

theorem dispatch_mret (vm : Vm) (h : IsMret word) :
    dispatchInstruction vm word = mret vm (decodeI word) := by
  obtain ⟨hop, hf, hcsr⟩ := h
  have hno : ¬ (field word 25 7 = 0x09 ∧ rdOf word = 0) :=
    fun hf => absurd (fence_of_csr hcsr hf) (by decide)
  have himm : (decodeI word).imm = 0x302 := (imm_eq_iff (n := 0x302) (by omega)).mpr hcsr
  rw [dispatch_system_word (of_raw_of_code hop), system_zero_eq vm hf, if_neg hno, himm]
  rfl

end

/-- What a trap return leaves before the interrupt check of its step: it resumes
at this pc and privilege with this mstatus. -/
structure Returned (vm done : Vm) (pc mstatus : BitVec 64) (priviledge : BitVec 8) : Prop where
  pc : done.cpu.pc = pc
  priviledge : done.cpu.priviledge = priviledge
  mstatus : done.cpu.csrs csrMstatus = mstatus
  others : ∀ a ∉ [csrMstatus, csrMcycle, csrMinstret], done.cpu.csrs a = vm.cpu.csrs a

theorem retire_returned (vm : Vm) (bus : Bus) (pc mstatus : BitVec 64) (priviledge : BitVec 8) :
    Returned vm (retire { fetched vm bus with cpu :=
      { (beginStep vm.cpu).setCsr csrMstatus mstatus with
        priviledge := priviledge, pc := pc, pcWritten := true } }) pc mstatus priviledge := by
  refine ⟨?_, ?_, ?_, fun a ha => ?_⟩
  · rw [retire_cpu]
    rfl
  · rw [retire_priviledge]
  · rw [retire_csrs _ (by decide), set_csr_csrs, if_pos rfl]
  · simp only [List.mem_cons, List.not_mem_nil, or_false, not_or] at ha
    rw [retire_csrs _ ha.2.2, set_csr_csrs, if_neg ha.1]
    exact begin_csrs vm.cpu ha.2.1

theorem Srets.returned {vm : Vm} (h : Srets vm) :
    Returned vm (processed vm) (vm.cpu.csrs csrSepc) (sretStatus (vm.cpu.csrs csrMstatus))
      (if (vm.cpu.csrs csrMstatus).getLsbD 8 then sMode else uMode) := by
  obtain ⟨⟨word, hw, hsret⟩, hpriv⟩ := h
  obtain ⟨bus, p, ht, rfl⟩ := fetched_word_some hw
  have hm : (fetched vm bus).cpu.priviledge ≠ uMode := hpriv
  rw [(step_of_fetch ht).1, dispatch_sret _ hsret, sret_eq _ hm]
  exact retire_returned vm bus _ _ _

theorem Mrets.returned {vm : Vm} (h : Mrets vm) :
    Returned vm (processed vm) (vm.cpu.csrs csrMepc) (mretStatus (vm.cpu.csrs csrMstatus))
      (mppOf (vm.cpu.csrs csrMstatus)) := by
  obtain ⟨⟨word, hw, hmret⟩, hpriv⟩ := h
  obtain ⟨bus, p, ht, rfl⟩ := fetched_word_some hw
  have hm : (fetched vm bus).cpu.priviledge = mMode := hpriv
  rw [(step_of_fetch ht).1, dispatch_mret _ hmret, mret_eq _ hm]
  exact retire_returned vm bus _ _ _

/-- A step that takes no interrupt ends where its instruction has left it. -/
theorem step_pc_quiet {vm : Vm} (hword : (fetchedWord vm).isSome)
    (hquiet : interruptTaken vm = none) : (cpuStep vm).cpu.pc = (processed vm).cpu.pc := by
  rw [finish_quiet hword hquiet]

theorem mepc_read {vm : Vm} (hp : vm.cpu.priviledge = mMode) :
    csrRead vm csrMepc = some (vm.cpu.csrs csrMepc) := by
  unfold csrRead csrCanRead
  rw [hp]
  rfl

/-- sepc is read without its two low bits, which it can hold. -/
theorem sepc_read {vm : Vm} (hp : vm.cpu.priviledge = sMode ∨ vm.cpu.priviledge = mMode) :
    csrRead vm csrSepc = some (vm.cpu.csrs csrSepc &&& ~~~0x3#64) := by
  unfold csrRead csrCanRead
  rcases hp with hp | hp <;> rw [hp] <;> rfl

theorem sepc_write {cpu : Cpu} (hp : cpu.priviledge = sMode ∨ cpu.priviledge = mMode)
    (value : BitVec 64) : csrWrite cpu csrSepc value = some (cpu.setCsr csrSepc value) := by
  have hblend : csrWrite cpu csrSepc value =
      some (cpu.setCsr csrSepc (blend (BitVec.allOnes 64) (cpu.csrs csrSepc) value)) := by
    unfold csrWrite csrCanWrite
    rcases hp with hp | hp <;> rw [hp] <;> rfl
  rw [hblend, blend_allOnes]

theorem aligned4_iff_masked (x : BitVec 64) : Aligned4 x ↔ x &&& ~~~0x3#64 = x := by
  constructor
  · intro h
    have hsplit := @Bits.blend_of_and_eq 64 0x3#64 x x rfl
    rwa [(aligned4_iff x).mp h, BitVec.or_zero] at hsplit
  · intro h
    rw [← h]
    exact aligned4_masked x

theorem sret_pc {vm : Vm} {word : BitVec 32} (hword : IsSret word)
    (hu : vm.cpu.priviledge ≠ uMode) :
    (dispatchInstruction vm word).cpu.pc = vm.cpu.csrs csrSepc := by
  rw [dispatch_sret vm hword, sret_eq word hu]

/-- A handler that reads sepc and writes the value back. -/
theorem sret_after_write_back {vm : Vm} {word : BitVec 32} (hword : IsSret word)
    (hp : vm.cpu.priviledge = sMode ∨ vm.cpu.priviledge = mMode) {r : BitVec 64} {cpu' : Cpu}
    (hread : csrRead vm csrSepc = some r) (hwrite : csrWrite vm.cpu csrSepc r = some cpu') :
    (dispatchInstruction { vm with cpu := cpu' } word).cpu.pc =
        (dispatchInstruction vm word).cpu.pc ↔ Aligned4 (vm.cpu.csrs csrSepc) := by
  have hu : vm.cpu.priviledge ≠ uMode := by
    rcases hp with h | h <;> rw [h] <;> decide
  rw [sepc_read hp] at hread
  cases hread
  rw [sepc_write hp] at hwrite
  cases hwrite
  rw [sret_pc hword hu, aligned4_iff_masked]
  have hback : ∀ cpu' : Cpu, cpu'.priviledge = vm.cpu.priviledge →
      (dispatchInstruction { vm with cpu := cpu' } word).cpu.pc = cpu'.csrs csrSepc :=
    fun cpu' hpriv => sret_pc hword (hpriv ▸ hu)
  rw [hback (vm.cpu.setCsr csrSepc (vm.cpu.csrs csrSepc &&& ~~~0x3#64)) rfl, set_csr_csrs,
    if_pos rfl]

/-- MRET goes where a read of mepc says. SRET goes where a read of sepc says
exactly when sepc has no low bits, and just then a handler can write back what
it has read of sepc. In a run whose steps put no low bits there, it always does. -/
theorem trap_return_visible (vm : Vm) (hquiet : interruptTaken vm = none) :
    (Mrets vm → csrRead vm csrMepc = some (cpuStep vm).cpu.pc) ∧
    (Srets vm → vm.cpu.priviledge = sMode ∨ vm.cpu.priviledge = mMode →
      (csrRead vm csrSepc = some (cpuStep vm).cpu.pc ↔ Aligned4 (vm.cpu.csrs csrSepc)) ∧
      ∀ word r cpu', IsSret word → csrRead vm csrSepc = some r →
        csrWrite vm.cpu csrSepc r = some cpu' →
        ((dispatchInstruction { vm with cpu := cpu' } word).cpu.pc =
          (dispatchInstruction vm word).cpu.pc ↔ Aligned4 (vm.cpu.csrs csrSepc))) ∧
    (GuardedRun (fun vm => ¬ JumpsMisaligned vm ∧ ¬ WritesMisalignedSepc vm) vm → Srets vm →
      vm.cpu.priviledge = sMode ∨ vm.cpu.priviledge = mMode →
      csrRead vm csrSepc = some (cpuStep vm).cpu.pc) := by
  have hsret : Srets vm → vm.cpu.priviledge = sMode ∨ vm.cpu.priviledge = mMode →
      (csrRead vm csrSepc = some (cpuStep vm).cpu.pc ↔ Aligned4 (vm.cpu.csrs csrSepc)) := by
    intro h hp
    obtain ⟨word, hw, _⟩ := h.1
    rw [step_pc_quiet (by rw [hw]; rfl) hquiet, h.returned.pc, sepc_read hp, aligned4_iff_masked,
      Option.some_inj]
  refine ⟨fun h => ?_, fun h hp => ⟨hsret h hp, ?_⟩, fun hrun h hp => ?_⟩
  · obtain ⟨word, hw, _⟩ := h.1
    rw [step_pc_quiet (by rw [hw]; rfl) hquiet, h.returned.pc, mepc_read h.2]
  · intro word r cpu' hword hread hwrite
    exact sret_after_write_back hword hp hread hwrite
  · exact (hsret h hp).mpr (aligned_run hrun).sepc

/-- MRET at reset. -/
def mretProgram : Vm := vmInit (ramOf [(0, 0x30200073)])

theorem mret_goes_to_mepc : csrRead mretProgram csrMepc = some (cpuStep mretProgram).cpu.pc := by
  have hmret : Mrets mretProgram := ⟨⟨0x30200073, by decide, rfl, rfl, rfl⟩, rfl⟩
  exact (trap_return_visible mretProgram (by decide)).1 hmret

/-- `csrrwi x0, sepc, 2; sret`, before its second instruction. -/
def sretAside : Vm := mainLoop (vmInit (ramOf [(0, 0x1020007314115073)])) .quiet

/-- sepc reads 0, and SRET goes to 2. -/
theorem sret_not_where_sepc_reads :
    Reachable sretAside ∧ csrRead sretAside csrSepc = some 0 ∧ (cpuStep sretAside).cpu.pc = 2 ∧
    ¬ ∀ vm, Reachable vm → interruptTaken vm = none →
      (Mrets vm → csrRead vm csrMepc = some (cpuStep vm).cpu.pc) ∧
      (Srets vm → vm.cpu.priviledge = sMode ∨ vm.cpu.priviledge = mMode →
        csrRead vm csrSepc = some (cpuStep vm).cpu.pc) := by
  have hreach : Reachable sretAside := .iterate _ .quiet (.init _)
  have hread : csrRead sretAside csrSepc = some 0 := by decide
  have hpc : (cpuStep sretAside).cpu.pc = 2 := by decide
  refine ⟨hreach, hread, hpc, fun h => ?_⟩
  have hsret : Srets sretAside :=
    ⟨⟨0x10200073, by decide, rfl, rfl, rfl⟩, by decide⟩
  have hwhere := (h sretAside hreach (by decide)).2 hsret (.inr (by decide))
  rw [hread, hpc] at hwhere
  exact absurd hwhere (by decide)

end RiscvVm.Proofs
