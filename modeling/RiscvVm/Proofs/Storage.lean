import RiscvVm.Proofs.Isolation

namespace RiscvVm.Proofs
open Bits

/-- The bits of a slot of `csrs` that anything may change: those a CSR write may
reach by the mask, the handler or the view of its CSR, those a trap entry or
return writes, those that count and those that the tick sets. -/
def slotMask (a : BitVec 12) : BitVec 64 :=
  if a = csrMtvec ∨ a = csrStvec then ~~~0x3#64
  else if a = csrMepc then BitVec.allOnes 64
  else if a = csrMie then mieWriteMask ||| supervisorInterruptMask
  else if a = csrMip then supervisorInterruptMask ||| (1#64 <<< 3) ||| (1#64 <<< 7)
  else (csrTable a).writeMask

def resetCsrs : BitVec 12 → BitVec 64 := (cpuReset cpuInit memBase).csrs

/-- Every slot holds its reset value but for the bits that may change. -/
def Stored (cpu : Cpu) : Prop := ∀ a, EqOff (slotMask a) (cpu.csrs a) (resetCsrs a)

theorem m_trap_status_off (cpu : Cpu) :
    EqOff mstatusWriteMask (mTrapStatus cpu) (cpu.csrs csrMstatus) := by
  refine eqOff_iff.mpr fun i hi hmask => ?_
  have hne : i ≠ 3 ∧ i ≠ 7 ∧ i ≠ 11 ∧ i ≠ 12 := by
    refine ⟨?_, ?_, ?_, ?_⟩ <;> rintro rfl <;> exact absurd hmask (by decide)
  rw [m_trap_status_get, if_neg hne.2.2.2, if_neg hne.2.2.1, if_neg hne.1, if_neg hne.2.1]

theorem mret_status_off (mstatus : BitVec 64) :
    EqOff mstatusWriteMask (mretStatus mstatus) mstatus := by
  refine eqOff_iff.mpr fun i hi hmask => ?_
  have hne : i ≠ 3 ∧ i ≠ 7 ∧ i ≠ 11 ∧ i ≠ 12 := by
    refine ⟨?_, ?_, ?_, ?_⟩ <;> rintro rfl <;> exact absurd hmask (by decide)
  rw [mret_status_get, if_neg hne.2.2.2, if_neg hne.2.2.1, if_neg hne.2.1, if_neg hne.1]

section
variable {cpu : Cpu}

theorem Stored.set (h : Stored cpu) {a : BitVec 12} {value : BitVec 64}
    (hv : EqOff (slotMask a) value (cpu.csrs a)) : Stored (cpu.setCsr a value) := by
  intro b
  rw [set_csr_csrs]
  split
  · rename_i hb
    subst hb
    exact hv.trans (h b)
  · exact h b

/-- A slot whose bits may all change takes any value. -/
theorem Stored.any (h : Stored cpu) {a : BitVec 12} (ha : slotMask a = BitVec.allOnes 64)
    (value : BitVec 64) : Stored (cpu.setCsr a value) := by
  apply h.set
  rw [ha]
  exact .of_allOnes _ _

theorem Stored.congr {cpu' : Cpu} (h : Stored cpu) (hcsrs : cpu'.csrs = cpu.csrs) :
    Stored cpu' := by
  intro a
  rw [hcsrs]
  exact h a

/-- The bits sstatus shows are among those of mstatus. -/
theorem Stored.sstatus (h : Stored cpu) {value : BitVec 64}
    (hv : EqOff sstatusWriteMask value (cpu.csrs csrMstatus)) :
    Stored (cpu.setCsr csrMstatus value) :=
  h.set (hv.mono (by decide))

theorem Stored.mstatus (h : Stored cpu) {value : BitVec 64}
    (hv : EqOff mstatusWriteMask value (cpu.csrs csrMstatus)) :
    Stored (cpu.setCsr csrMstatus value) :=
  h.set hv

/-- The trap vectors keep their low bits clear. -/
theorem Stored.vector (h : Stored cpu) {a : BitVec 12} (value : BitVec 64)
    (ha : slotMask a = ~~~0x3#64) (hreset : resetCsrs a &&& 0x3#64 = 0) :
    Stored (cpu.setCsr a (value &&& ~~~0x3#64)) := by
  intro b
  rw [set_csr_csrs]
  split
  · rename_i hb
    subst hb
    unfold EqOff
    rw [ha, BitVec.not_not, hreset, BitVec.and_assoc, BitVec.not_and_self]
    exact BitVec.and_zero
  · exact h b

theorem stored_invariant : ControlInvariant Stored := by
  refine ⟨fun h hcsrs _ => h.congr hcsrs, fun h ha => ?_, fun h _ => ?_, fun h => ?_⟩
  · rcases ha with rfl | rfl <;> exact h.any (by decide) _
  · rename_i cpu cause tvalue _
    have hrecord := ((h.any (a := csrSepc) (by decide) cpu.pc).any (a := csrScause)
      (by decide) cause).any (a := csrStval) (by decide) tvalue
    have hentered := hrecord.sstatus (s_trap_status_off cpu)
    exact hentered.congr rfl
  · rename_i cpu cause tvalue
    have hrecord := ((h.any (a := csrMepc) (by decide) cpu.pc).any (a := csrMcause)
      (by decide) cause).any (a := csrMtval) (by decide) tvalue
    have hentered := hrecord.mstatus (m_trap_status_off cpu)
    exact hentered.congr rfl

/-- What a CSR can be written through its mask may change. -/
theorem write_mask_le (a : BitVec 12) :
    (csrTable a).writeMask &&& slotMask a = (csrTable a).writeMask := by
  by_cases hspecial : a ∈ [csrMtvec, csrStvec, csrMepc, csrMie, csrMip]
  · have hall : [csrMtvec, csrStvec, csrMepc, csrMie, csrMip].all
        (fun a => (csrTable a).writeMask &&& slotMask a == (csrTable a).writeMask) = true := by
      decide
    exact beq_iff_eq.mp (List.all_eq_true.mp hall a hspecial)
  · simp only [List.mem_cons, List.not_mem_nil, or_false, not_or] at hspecial
    obtain ⟨hmtvec, hstvec, hmepc, hmie, hmip⟩ := hspecial
    unfold slotMask
    rw [if_neg (not_or.mpr ⟨hmtvec, hstvec⟩), if_neg hmepc, if_neg hmie, if_neg hmip,
      BitVec.and_self]

theorem writes_stored {cpu' : Cpu} {addr : BitVec 12} {value : BitVec 64} (h : Stored cpu)
    (hw : Writes cpu addr value cpu') : Stored cpu' := by
  have hview : ∀ deleg : BitVec 64,
      (supervisorInterruptMask &&& deleg) &&& supervisorInterruptMask =
        supervisorInterruptMask &&& deleg := by
    intro deleg
    rw [BitVec.and_comm, ← BitVec.and_assoc, BitVec.and_self]
  cases hw with
  | misa ha => exact h
  | mtvec ha => exact h.vector value (by decide) (by decide)
  | stvec ha => exact h.vector value (by decide) (by decide)
  | sstatus ha => exact h.sstatus (eqOff_blend sstatusWriteMask (cpu.csrs csrMstatus) value)
  | sie ha =>
    have hoff := (eqOff_blend (supervisorInterruptMask &&& cpu.csrs csrMideleg)
      (cpu.csrs csrMie) value).mono (hview _)
    exact h.set (hoff.mono (by decide))
  | sip ha =>
    have hoff := (eqOff_blend (supervisorInterruptMask &&& cpu.csrs csrMideleg)
      (cpu.csrs csrMip) value).mono (hview _)
    exact h.set (hoff.mono (by decide))
  | masked himp hw => exact h.set ((eqOff_blend _ _ value).mono (write_mask_le addr))

end

theorem stored_kept {vm : Vm} (h : Stored vm.cpu) : KeptBy Stored vm := by
  have hbegin := stored_invariant.begin h
  refine ⟨fun _ hw => writes_stored hbegin hw, fun _ => ?_, fun _ => ?_⟩
  · exact (hbegin.sstatus (sret_status_off _)).congr rfl
  · exact (hbegin.mstatus (mret_status_off _)).congr rfl

theorem pending_stored {cpu : Cpu} (h : Stored cpu) {cause : Nat} {pending : Bool}
    (hc : cause = irqSoftware ∨ cause = irqTimer) :
    Stored (cpuSetInterruptPending cpu cause pending) := by
  rw [set_pending_eq]
  exact h.set (pending_off hc (by decide) (by decide))

theorem reachable_stored {vm : Vm} (h : Reachable vm) : Stored vm.cpu := by
  refine stored_invariant.run (fun a => .refl _ _) (fun h hc => pending_stored h hc)
    (fun h _ => stored_kept h) (guarded_of_reachable h)

/-- A slot that nothing may change has its reset value. -/
theorem Stored.fixed {cpu : Cpu} (h : Stored cpu) {a : BitVec 12} (ha : slotMask a = 0) :
    cpu.csrs a = resetCsrs a := by
  have hoff := h a
  rw [ha] at hoff
  exact hoff.eq_of_zero

/-- The slots of addresses without a CSR. -/
theorem unimplemented_slot {a : BitVec 12} (h : (csrTable a).implemented = false) :
    slotMask a = 0 ∧ resetCsrs a = 0 := by
  have hne : ∀ b, (csrTable b).implemented = true → a ≠ b := by
    rintro b hb rfl
    rw [h] at hb
    cases hb
  constructor
  · have hdefault : csrTable a = {} := by
      unfold csrTable at h ⊢
      cases hl : csrLoad.lookup a with
      | none => rfl
      | some descriptor =>
        rw [hl] at h
        have hall : csrLoad.all (fun entry => entry.2.implemented) = true := by decide
        have himp := List.all_eq_true.mp hall _ (csr_load_mem hl)
        exact absurd (h.symm.trans himp) (by decide)
    unfold slotMask
    rw [hdefault]
    simp only [hne csrMtvec rfl, hne csrStvec rfl, hne csrMepc rfl, hne csrMie rfl,
      hne csrMip rfl, or_self, if_false]
  · simp only [resetCsrs, cpuReset, csrReset, ucsrReset, scsrReset, mcsrReset, set_csr_csrs]
    repeat rw [if_neg (hne _ rfl)]
    rfl

/-- Whatever the guest does, the CSR storage keeps its shape. -/
theorem csr_storage_invariant {vm : Vm} (h : Reachable vm) :
    vm.cpu.csrs csrMstatus &&& ~~~(csrTable csrMstatus).writeMask = 0 ∧
      vm.cpu.csrs csrMtvec &&& 0x3 = 0 ∧ vm.cpu.csrs csrStvec &&& 0x3 = 0 ∧
      vm.cpu.csrs csrMcounteren ≤ 7 ∧ (vm.cpu.csrs csrScounteren).toNat < 2 ^ 32 ∧
      vm.cpu.csrs csrMisa = misaReset ∧
      (∀ a ∈ [csrMhartid, csrMvendorid, csrMarchid, csrMimpid], vm.cpu.csrs a = 0) ∧
      (∀ a ∈ [csrSstatus, csrSie, csrSip, csrCycle, csrTime, csrInstret], vm.cpu.csrs a = 0) ∧
      ∀ a, (csrTable a).implemented = false → vm.cpu.csrs a = 0 := by
  have hs := reachable_stored h
  have hall : [csrMhartid, csrMvendorid, csrMarchid, csrMimpid, csrSstatus, csrSie, csrSip,
      csrCycle, csrTime, csrInstret].all (fun a => slotMask a == 0 && resetCsrs a == 0) = true := by
    decide
  have hfixed : ∀ a ∈ [csrMhartid, csrMvendorid, csrMarchid, csrMimpid, csrSstatus, csrSie,
      csrSip, csrCycle, csrTime, csrInstret], vm.cpu.csrs a = 0 := by
    intro a ha
    have hzero := List.all_eq_true.mp hall a ha
    simp only [Bool.and_eq_true, beq_iff_eq] at hzero
    rw [hs.fixed hzero.1, hzero.2]
  have hmtvec : EqOff (~~~0x3#64) (vm.cpu.csrs csrMtvec) ramBase := hs csrMtvec
  have hstvec : EqOff (~~~0x3#64) (vm.cpu.csrs csrStvec) 0 := hs csrStvec
  have hmcounteren : EqOff 7 (vm.cpu.csrs csrMcounteren) 0 := hs csrMcounteren
  have hscounteren : EqOff 0xFFFFFFFF (vm.cpu.csrs csrScounteren) 0 := hs csrScounteren
  refine ⟨hs csrMstatus, ?_, ?_, hmcounteren.le_mask, ?_, hs.fixed rfl, fun a ha => ?_,
    fun a ha => ?_, fun a ha => ?_⟩
  · exact hmtvec
  · exact hstvec
  · exact Nat.lt_succ_of_le (BitVec.le_def.mp hscounteren.le_mask)
  · exact hfixed a (List.mem_append_left [csrSstatus, csrSie, csrSip, csrCycle, csrTime,
      csrInstret] ha)
  · exact hfixed a (List.mem_append_right [csrMhartid, csrMvendorid, csrMarchid, csrMimpid] ha)
  · obtain ⟨hm, hr⟩ := unimplemented_slot ha
    rw [hs.fixed hm, hr]

/-- After a start that writes mstatus, mtvec and others, and a trap. -/
theorem csr_storage_startup :
    (quietly 15 (vmInit startup)).cpu.csrs csrMstatus ≠ 0 ∧
      (quietly 15 (vmInit startup)).cpu.csrs csrMstatus &&&
        ~~~(csrTable csrMstatus).writeMask = 0 ∧
      (quietly 15 (vmInit startup)).cpu.csrs csrMtvec ≠ 0 ∧
      (quietly 15 (vmInit startup)).cpu.csrs csrMtvec &&& 0x3 = 0 := by
  obtain ⟨hmstatus, hmtvec, _⟩ :=
    csr_storage_invariant (quietly_reachable 15 (.init startup))
  exact ⟨by decide +kernel, hmstatus, by decide +kernel, hmtvec⟩

end RiscvVm.Proofs
