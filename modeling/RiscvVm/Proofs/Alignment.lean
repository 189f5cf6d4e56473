import RiscvVm.Proofs.Invariant

namespace RiscvVm.Proofs
open Bits

/-- A multiple of 4. -/
def Aligned4 (x : BitVec 64) : Prop := x.toNat % 4 = 0

instance (x : BitVec 64) : Decidable (Aligned4 x) := inferInstanceAs (Decidable (_ = _))

theorem aligned4_iff (x : BitVec 64) : Aligned4 x ↔ x &&& 0x3#64 = 0#64 := by
  have hmod : (x &&& 0x3#64).toNat = x.toNat % 4 := by
    rw [BitVec.toNat_and]
    exact Nat.and_two_pow_sub_one_eq_mod x.toNat 2
  unfold Aligned4
  rw [← hmod]
  constructor
  · intro h
    exact BitVec.eq_of_toNat_eq h
  · intro h
    rw [h]
    rfl

theorem aligned4_masked (x : BitVec 64) : Aligned4 (x &&& ~~~0x3#64) := by
  rw [aligned4_iff, BitVec.and_assoc, BitVec.not_and_self]
  exact BitVec.and_zero

theorem aligned4_next {x : BitVec 64} (h : Aligned4 x) : Aligned4 (x + 4) := by
  unfold Aligned4 at *
  rw [BitVec.toNat_add]
  have h4 : (4 : BitVec 64).toNat = 4 := rfl
  omega

/-- A write that leaves the two low bits alone. -/
theorem Aligned4.of_eqOff {x y : BitVec 64} (h : Aligned4 y) (hoff : EqOff (~~~0x3#64) x y) :
    Aligned4 x := by
  rw [aligned4_iff] at *
  unfold EqOff at hoff
  rw [BitVec.not_not] at hoff
  rw [hoff, h]

/-- Where execution is, and where trap returns take it. -/
structure Aligned (cpu : Cpu) : Prop where
  pc : Aligned4 cpu.pc
  mepc : Aligned4 (cpu.csrs csrMepc)
  sepc : Aligned4 (cpu.csrs csrSepc)

/-- The step takes a jump or branch to a target that is not a multiple of 4. -/
def JumpsMisaligned (vm : Vm) : Prop :=
  ∃ bus p target, translateAddress vm.cpu vm.bus vm.cpu.pc .fetch = (bus, .ok p) ∧
    jumpTarget (fetched vm bus).cpu (vmBusRead32 bus p) = some target ∧ ¬ Aligned4 target

/-- Where the word of the step jumps to, if it does. -/
def stepTarget (vm : Vm) : Option (BitVec 64) :=
  match translateAddress vm.cpu vm.bus vm.cpu.pc .fetch with
  | (bus, .ok p) => jumpTarget (fetched vm bus).cpu (vmBusRead32 bus p)
  | (_, .error _) => none

/-- The step writes sepc a value that is not a multiple of 4. -/
def WritesMisalignedSepc (vm : Vm) : Prop :=
  ∃ value, WritesCsr vm csrSepc value ∧ ¬ Aligned4 value

section
variable {cpu : Cpu}

theorem Aligned.congr {cpu' : Cpu} (h : Aligned cpu) (hpc : cpu'.pc = cpu.pc)
    (hcsrs : cpu'.csrs = cpu.csrs) : Aligned cpu' := by
  refine ⟨?_, ?_, ?_⟩
  · rw [hpc]
    exact h.pc
  · rw [hcsrs]
    exact h.mepc
  · rw [hcsrs]
    exact h.sepc

/-- Trap entries record pc and clear the low bits of the vector. -/
theorem trap_to_s_aligned (h : Aligned cpu) (cause tvalue : BitVec 64) :
    Aligned (trapToS cpu cause tvalue) := ⟨aligned4_masked _, h.mepc, h.pc⟩

theorem trap_to_m_aligned (h : Aligned cpu) (cause tvalue : BitVec 64) :
    Aligned (trapToM cpu cause tvalue) := ⟨aligned4_masked _, h.pc, h.sepc⟩

theorem raise_exception_aligned (h : Aligned cpu) (cause tvalue : BitVec 64) :
    Aligned (raiseException cpu cause tvalue) := by
  unfold raiseException
  dsimp only
  split
  · exact trap_to_s_aligned h cause tvalue
  · exact trap_to_m_aligned h cause tvalue

theorem check_interrupts_aligned (h : Aligned cpu) : Aligned (cpuCheckInterrupts cpu) := by
  rw [check_interrupts_eq]
  cases selected cpu with
  | none => exact h
  | some n =>
    dsimp only
    unfold raiseInterrupt
    dsimp only
    split
    · exact trap_to_s_aligned h _ _
    · exact trap_to_m_aligned h _ _

/-- The mask of mepc keeps its low bits; sepc has no such mask. -/
theorem writes_aligned {cpu' : Cpu} {addr : BitVec 12} {value : BitVec 64} (h : Aligned cpu)
    (hw : Writes cpu addr value cpu') (hok : addr = csrSepc → Aligned4 value) : Aligned cpu' := by
  refine ⟨?_, ?_, ?_⟩
  · rw [writes_eq hw]
    exact h.pc
  · by_cases ha : csrMepc = addr
    · subst ha
      rw [hw.named rfl]
      exact h.mepc.of_eqOff (eqOff_blend (csrTable csrMepc).writeMask _ value)
    · rw [hw.other ha (by decide)]
      exact h.mepc
  · by_cases ha : csrSepc = addr
    · subst ha
      have hmask : (csrTable csrSepc).writeMask = BitVec.allOnes 64 := rfl
      rw [hw.named rfl, hmask, blend_allOnes]
      exact hok rfl
    · rw [hw.other ha (by decide)]
      exact h.sepc

end

/-- What an instruction leaves is aligned, unless it jumps elsewhere or writes
sepc. -/
theorem executes_aligned {vm done : Vm} {word : BitVec 32} (h : Aligned vm.cpu)
    (hx : Executes vm word done)
    (hjump : ∀ target, jumpTarget vm.cpu word = some target → Aligned4 target)
    (hsepc : ∀ value, csrRequest vm word = some (csrSepc, value) →
      csrCanWrite csrSepc vm.cpu.priviledge = true → Aligned4 value) : Aligned done.cpu := by
  cases hx with
  | nop => exact h
  | write value => exact h.congr (by simp) (by simp)
  | branch target ht => exact ⟨hjump target ht, h.mepc, h.sepc⟩
  | link target value ht =>
    refine ⟨hjump target ht, ?_, ?_⟩
    · simpa using h.mepc
    · simpa using h.sepc
  | trap hfault => exact raise_exception_aligned h _ _
  | load width va p bus extend hacc ht => exact h.congr (by simp) (by simp)
  | store width va p value bus hacc ht => exact h.congr (by simp) (by simp)
  | amo width va p new old bus hwidth hacc ht => exact h.congr (by simp) (by simp)
  | lr width va p value bus hlr hwidth hacc ht => exact h.congr (by simp) (by simp)
  | sc width va p value bus hsc hwidth hacc ht hres => exact h.congr (by simp) (by simp)
  | scFailed width va p bus hsc hwidth hacc ht hres => exact h.congr (by simp) (by simp)
  | csr addr new old cpu hreq hw =>
    obtain ⟨hcan, hwrites⟩ := csr_write_cases hw
    have hcpu : Aligned cpu := by
      refine writes_aligned h hwrites ?_
      rintro rfl
      exact hsepc new hreq hcan
    exact hcpu.congr (by simp) (by simp)
  | sret hword hpriv =>
    rw [sret_eq word hpriv]
    exact ⟨h.sepc, h.mepc, h.sepc⟩
  | mret hword hpriv =>
    rw [mret_eq word hpriv]
    exact ⟨h.mepc, h.mepc, h.sepc⟩

theorem retire_aligned {vm : Vm} (h : Aligned vm.cpu) : Aligned (retire vm).cpu := by
  rw [retire_cpu]
  split
  · exact h
  · refine ⟨?_, h.mepc, h.sepc⟩
    dsimp only
    split
    · exact h.pc
    · exact aligned4_next h.pc

theorem step_aligned {vm : Vm} (h : Aligned vm.cpu) (hjump : ¬ JumpsMisaligned vm)
    (hsepc : ¬ WritesMisalignedSepc vm) : Aligned (cpuStep vm).cpu := by
  have hbegin : Aligned (beginStep vm.cpu) := ⟨h.pc, h.mepc, h.sepc⟩
  rcases step_cases vm with ⟨_, hp, hs⟩ | ⟨bus, p, done, ht, hx, hp, hs⟩
  · rw [hs, hp]
    exact raise_exception_aligned hbegin _ _
  · have hdone : Aligned done.cpu := by
      refine executes_aligned hbegin hx (fun target hj => ?_) fun value hreq hcan => ?_
      · exact Decidable.byContradiction fun hno => hjump ⟨bus, p, target, ht, hj, hno⟩
      · exact Decidable.byContradiction fun hno => hsepc ⟨value, ⟨bus, p, ht, hreq, hcan⟩, hno⟩
    rw [hs, hp]
    exact (check_interrupts_aligned (retire_aligned hdone)).congr rfl rfl

theorem taken_branch_eq {cpu : Cpu} {word : BitVec 32} (h : branchTaken cpu word = true) :
    dispatchBranch cpu (decodeB word) =
      { cpu with pc := cpu.pc + (decodeB word).imm, pcWritten := true } := by
  unfold branchTaken at h
  unfold dispatchBranch
  split
  case h_7 h0 h1 h4 h5 h6 h7 =>
    split at h
    case h_7 => cases h
    all_goals contradiction
  all_goals
    rename_i hf
    rw [decode_b_funct3] at hf
    rw [hf] at h
    exact if_pos h

/-- A jump or branch that is taken goes to its target, whatever that is. -/
theorem jump_dispatch {m : Vm} {word : BitVec 32} {target : BitVec 64}
    (h : jumpTarget m.cpu word = some target) :
    ∃ cpu : Cpu, dispatchInstruction m word =
        { m with cpu := { cpu with pc := target, pcWritten := true } } ∧
      cpu.trapTaken = m.cpu.trapTaken := by
  unfold jumpTarget at h
  split at h
  · rename_i hop
    cases h
    rw [dispatch_jal_word hop, Vm.onCpu, jal_eq]
    exact ⟨_, rfl, write_reg_trap_taken _ _ _⟩
  · rename_i hop
    cases h
    rw [dispatch_jalr_word hop]
    exact ⟨_, rfl, write_reg_trap_taken _ _ _⟩
  · rename_i hop
    split at h
    · rename_i htaken
      cases h
      rw [dispatch_branch_word hop, Vm.onCpu, taken_branch_eq htaken]
      exact ⟨_, rfl, rfl⟩
    · cases h
  · cases h

theorem misaligned_jump_lands {vm : Vm} (h : JumpsMisaligned vm) :
    ¬ Aligned4 (processed vm).cpu.pc := by
  obtain ⟨bus, p, target, ht, hjump, hno⟩ := h
  obtain ⟨cpu, hd, htaken⟩ := jump_dispatch hjump
  have hquiet : cpu.trapTaken = false := htaken
  rw [(step_of_fetch ht).1, hd, retire_cpu]
  simp only [hquiet]
  exact hno

theorem misaligned_sepc_stays {vm : Vm} (h : WritesMisalignedSepc vm) :
    ¬ Aligned4 ((processed vm).cpu.csrs csrSepc) := by
  obtain ⟨value, hwrite, hno⟩ := h
  obtain ⟨cpu, hw, hcsrs⟩ := writes_csr_done hwrite rfl
  have hmask : (csrTable csrSepc).writeMask = BitVec.allOnes 64 := rfl
  rw [hcsrs csrSepc (by decide), hw.named rfl, hmask, blend_allOnes]
  exact hno

/-- A run none of whose steps jumps to an address that is not a multiple of 4, or
writes one to sepc. -/
theorem aligned_run {vm : Vm}
    (h : GuardedRun (fun vm => ¬ JumpsMisaligned vm ∧ ¬ WritesMisalignedSepc vm) vm) :
    Aligned vm.cpu := by
  have hbase : Aligned4 memBase ∧ Aligned4 0x80000000 ∧ Aligned4 0 := by decide
  induction h with
  | init ram => exact ⟨hbase.1, hbase.2.2, hbase.2.2⟩
  | boot ram => exact ⟨hbase.2.1, hbase.2.2, hbase.2.2⟩
  | iterate vm host _ hok ih =>
    refine tick_keeps (fun h _ => ?_) (step_aligned ih hok.1 hok.2) host
    rw [set_pending_eq]
    exact ⟨h.pc, h.mepc, h.sepc⟩

/-- As long as no step jumps to an address that is not a multiple of 4 or writes
one to sepc, pc and both epcs are multiples of 4 in every state of every run.
A step that does is not stopped from it: so it leaves the pc or sepc, before it
looks for interrupts, whose trap may save over the one and the other. -/
theorem instruction_alignment {vm : Vm}
    (h : GuardedRun (fun vm => ¬ JumpsMisaligned vm ∧ ¬ WritesMisalignedSepc vm) vm) :
    (Aligned4 vm.cpu.pc ∧ Aligned4 (vm.cpu.csrs csrMepc) ∧ Aligned4 (vm.cpu.csrs csrSepc)) ∧
      (JumpsMisaligned vm → ¬ Aligned4 (processed vm).cpu.pc) ∧
      (WritesMisalignedSepc vm → ¬ Aligned4 ((processed vm).cpu.csrs csrSepc)) := by
  have haligned := aligned_run h
  exact ⟨⟨haligned.pc, haligned.mepc, haligned.sepc⟩, misaligned_jump_lands,
    misaligned_sepc_stays⟩

/-- A start that writes sepc, jumps, returns and traps. -/
theorem alignment_startup : Aligned4 (quietly 15 (vmInit startup)).cpu.pc ∧
    Aligned4 ((quietly 15 (vmInit startup)).cpu.csrs csrMepc) ∧
      Aligned4 ((quietly 15 (vmInit startup)).cpu.csrs csrSepc) := by
  have htargets : ∀ k < 15, (stepTarget (quietly k (vmInit startup))).all
      (fun target => decide (Aligned4 target)) = true := by decide +kernel
  have hasked : ∀ k < 15, (stepWrite (quietly k (vmInit startup))).all
      (fun w => decide (w.1 = csrSepc → Aligned4 w.2)) = true := by decide +kernel
  refine (instruction_alignment (quietly_guarded startup fun k hk => ⟨?_, ?_⟩)).1
  · rintro ⟨bus, p, target, ht, hjump, haside⟩
    have htarget : stepTarget (quietly k (vmInit startup)) = some target := by
      simpa only [stepTarget, ht] using hjump
    have hk' := htargets k hk
    rw [htarget] at hk'
    exact haside (of_decide_eq_true hk')
  · rintro ⟨value, hwrite, haside⟩
    exact haside (hwrite.meets (hasked k hk) rfl)

/-- `jal x0, 2`. -/
def jumpAside : Memory := ramOf [(0, 0x0020006F)]

/-- `csrwi sepc, 2`. -/
def saveAside : Memory := ramOf [(0, 0x14115073)]

/-- The one is taken, and the other is stored. -/
theorem misaligned_pc_reached :
    (∃ vm, Reachable vm ∧ ¬ Aligned4 vm.cpu.pc) ∧
      ∃ vm, Reachable vm ∧ ¬ Aligned4 (vm.cpu.csrs csrSepc) :=
  ⟨⟨_, .iterate _ .quiet (.init jumpAside), by decide⟩,
    ⟨_, .iterate _ .quiet (.init saveAside), by decide⟩⟩

end RiscvVm.Proofs
