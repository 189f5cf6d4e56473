import RiscvVm.Proofs.Interrupts
import RiscvVm.Proofs.Invariant

namespace RiscvVm.Proofs

/-- The three privilege modes; 2 is not assigned. -/
def Legal (priv : BitVec 8) : Prop := priv = uMode ∨ priv = sMode ∨ priv = mMode

instance (priv : BitVec 8) : Decidable (Legal priv) := inferInstanceAs (Decidable (_ ∨ _ ∨ _))

theorem mpp_le (mstatus : BitVec 64) : mppOf mstatus ≤ mMode := by
  have h : ((mstatus >>> 11) &&& 0x3).toNat ≤ 3 := by
    rw [BitVec.toNat_and]
    exact Nat.and_le_right
  rw [BitVec.le_def, mppOf, BitVec.toNat_setWidth]
  exact Nat.le_trans (Nat.mod_le _ _) h

theorem legal_of_le {priv : BitVec 8} (hle : priv ≤ mMode) (h2 : priv ≠ 2) : Legal priv := by
  unfold Legal uMode sMode
  unfold mMode at hle ⊢
  bv_omega

theorem Legal.le {priv : BitVec 8} (h : Legal priv) : priv ≤ mMode := by
  rcases h with rfl | rfl | rfl <;> decide

/-- The trap vector of the level a trap has entered. -/
def AtTrapVector (cpu : Cpu) : Prop :=
  (cpu.priviledge = mMode ∧ cpu.pc = cpu.csrs csrMtvec &&& ~~~0x3#64) ∨
    (cpu.priviledge = sMode ∧ cpu.pc = cpu.csrs csrStvec &&& ~~~0x3#64)

theorem trap_to_s_vector (cpu : Cpu) (cause tvalue : BitVec 64) :
    AtTrapVector (trapToS cpu cause tvalue) := Or.inr ⟨rfl, rfl⟩

theorem trap_to_m_vector (cpu : Cpu) (cause tvalue : BitVec 64) :
    AtTrapVector (trapToM cpu cause tvalue) := Or.inl ⟨rfl, rfl⟩

theorem AtTrapVector.legal {cpu : Cpu} (h : AtTrapVector cpu) : Legal cpu.priviledge :=
  h.elim (fun h => Or.inr (Or.inr h.1)) fun h => Or.inr (Or.inl h.1)

/-- Below M, S is no lower. -/
theorem le_s_of_lt {priv : BitVec 8} (hp : Legal priv) (h : priv < mMode) : priv ≤ sMode := by
  rcases hp with rfl | rfl | rfl
  · decide
  · decide
  · exact absurd h (by decide)

/-- MRET executed in M, or SRET executed in S or M. -/
def ReturnsFromTrap (vm : Vm) (word : BitVec 32) : Prop :=
  (IsMret word ∧ vm.cpu.priviledge = mMode) ∨
    (IsSret word ∧ (vm.cpu.priviledge = sMode ∨ vm.cpu.priviledge = mMode))

/-- The first half of a step enters a trap upwards, leaves the privilege alone,
or returns downwards. -/
theorem processed_privilege {vm : Vm} (hp : Legal vm.cpu.priviledge)
    (hmpp : mppOf (vm.cpu.csrs csrMstatus) ≠ 2) :
    ((processed vm).cpu.trapTaken = true ∧ vm.cpu.priviledge ≤ (processed vm).cpu.priviledge ∧
      AtTrapVector (processed vm).cpu) ∨
    ((processed vm).cpu.trapTaken = false ∧ Legal (processed vm).cpu.priviledge ∧
      ((processed vm).cpu.priviledge = vm.cpu.priviledge ∨
        ((processed vm).cpu.priviledge ≤ vm.cpu.priviledge ∧
          ∃ word, fetchedWord vm = some word ∧ ReturnsFromTrap vm word))) := by
  cases ht : (processed vm).cpu.trapTaken with
  | true =>
    refine Or.inl ⟨rfl, ?_⟩
    rcases exception_entry ht with ⟨hd, he⟩ | ⟨_, he⟩
    · rw [he]
      exact ⟨le_s_of_lt hp hd.1, trap_to_s_vector _ _ _⟩
    · rw [he]
      exact ⟨hp.le, trap_to_m_vector _ _ _⟩
  | false =>
    refine Or.inr ⟨rfl, ?_⟩
    rcases step_cases vm with ⟨_, hf, _⟩ | ⟨bus, p, done, hw, hx, hd, _⟩
    · rw [hf, raise_exception_cpu, raise_exception_taken] at ht
      cases ht
    · have hword : fetchedWord vm = some (vmBusRead32 bus p) := by rw [fetchedWord, hw]
      rw [hd, retire_priviledge]
      rw [hd, retire_taken] at ht
      cases executes_control hx with
      | plain hcsrs hpriv htaken =>
        rw [hpriv]
        exact ⟨hp, Or.inl rfl⟩
      | trap he =>
        rw [he, raise_exception_cpu, raise_exception_taken] at ht
        cases ht
      | csr addr new cpu hreq hcan hwrites hcsrs hpriv htaken =>
        rw [hpriv]
        exact ⟨hp, Or.inl rfl⟩
      | sret hs hpriv he =>
        have hsm := hp.resolve_left hpriv
        have hle : (if ((fetched vm bus).cpu.csrs csrMstatus).getLsbD 8 then (1 : BitVec 8)
            else 0) ≤ vm.cpu.priviledge := by
          rcases hsm with h | h <;> rw [h] <;> split <;> decide
        have hlegal : Legal (if ((fetched vm bus).cpu.csrs csrMstatus).getLsbD 8 then (1 : BitVec 8)
            else 0) := by
          split <;> decide
        rw [he, sret_eq _ hpriv]
        exact ⟨hlegal, Or.inr ⟨hle, _, hword, Or.inr ⟨hs, hsm⟩⟩⟩
      | mret hm hpriv he =>
        have hle : mppOf (vm.cpu.csrs csrMstatus) ≤ vm.cpu.priviledge := by
          have hm : vm.cpu.priviledge = mMode := hpriv
          rw [hm]
          exact mpp_le _
        rw [he, mret_eq _ hpriv]
        exact ⟨legal_of_le (mpp_le _) hmpp, Or.inr ⟨hle, _, hword, Or.inl ⟨hm, hpriv⟩⟩⟩

/-- The second half of a step leaves the privilege alone, or enters an
interrupt upwards. -/
theorem interrupt_privilege {vm : Vm} (hp : Legal (processed vm).cpu.priviledge) :
    (interruptTaken vm = none ∧ (cpuStep vm).cpu.priviledge = (processed vm).cpu.priviledge ∧
      (AtTrapVector (processed vm).cpu → AtTrapVector (cpuStep vm).cpu)) ∨
    ((interruptTaken vm).isSome ∧ (processed vm).cpu.priviledge ≤ (cpuStep vm).cpu.priviledge ∧
      AtTrapVector (cpuStep vm).cpu) := by
  obtain ⟨written, hs⟩ := step_cpu_eq vm
  cases hi : interruptTaken vm with
  | none =>
    rw [hi] at hs
    rw [hs]
    exact Or.inl ⟨rfl, rfl, fun h => h⟩
  | some n =>
    rw [hi] at hs
    have hlt : n < 64 := by
      unfold interruptTaken at hi
      split at hi
      · cases hi
      · exact selected_lt hi
    dsimp only at hs
    rw [raise_interrupt_eq _ hlt] at hs
    rw [hs]
    refine Or.inr ⟨rfl, ?_⟩
    by_cases hd : Delegated (processed vm).cpu csrMideleg n
    · rw [if_pos hd]
      exact ⟨le_s_of_lt hp hd.1, trap_to_s_vector _ _ _⟩
    · rw [if_neg hd]
      exact ⟨hp.le, trap_to_m_vector _ _ _⟩

/-- A step raises the privilege only through a trap to its vector and lowers it
only through a trap return, and no trap lowers it. -/
theorem privilege_changes_controlled (vm : Vm) (hp : Legal vm.cpu.priviledge)
    (hmpp : mppOf (vm.cpu.csrs csrMstatus) ≠ 2) :
    (vm.cpu.priviledge < (cpuStep vm).cpu.priviledge →
      ((processed vm).cpu.trapTaken = true ∨ (interruptTaken vm).isSome) ∧
        AtTrapVector (cpuStep vm).cpu) ∧
    ((cpuStep vm).cpu.priviledge < vm.cpu.priviledge →
      ∃ word, fetchedWord vm = some word ∧ ReturnsFromTrap vm word) ∧
    ((processed vm).cpu.trapTaken = true →
      vm.cpu.priviledge ≤ (processed vm).cpu.priviledge) ∧
    ((interruptTaken vm).isSome →
      (processed vm).cpu.priviledge ≤ (cpuStep vm).cpu.priviledge) := by
  have hfirst := processed_privilege hp hmpp
  have hlegal : Legal (processed vm).cpu.priviledge := by
    rcases hfirst with ⟨_, _, hv⟩ | ⟨_, hl, _⟩
    · exact hv.legal
    · exact hl
  have hsecond := interrupt_privilege hlegal
  refine ⟨fun hup => ?_, fun hdown => ?_, fun ht => ?_, fun hi => ?_⟩
  · rcases hsecond with ⟨_, he, hkeep⟩ | ⟨hi, _, hv⟩
    · rw [he] at hup
      rcases hfirst with ⟨ht, _, hv⟩ | ⟨_, _, hsame | ⟨hle, _⟩⟩
      · exact ⟨Or.inl ht, hkeep hv⟩
      · rw [hsame] at hup
        exact absurd hup (BitVec.lt_irrefl _)
      · exact absurd hup (BitVec.not_lt.mpr hle)
    · exact ⟨Or.inr hi, hv⟩
  · have hle : (processed vm).cpu.priviledge ≤ (cpuStep vm).cpu.priviledge := by
      rcases hsecond with ⟨_, he, _⟩ | ⟨_, hle, _⟩
      · rw [he]
        exact BitVec.le_refl _
      · exact hle
    have hdown' : (processed vm).cpu.priviledge < vm.cpu.priviledge := by bv_omega
    rcases hfirst with ⟨_, hup, _⟩ | ⟨_, _, hsame | ⟨_, hret⟩⟩
    · exact absurd hdown' (BitVec.not_lt.mpr hup)
    · rw [hsame] at hdown'
      exact absurd hdown' (BitVec.lt_irrefl _)
    · exact hret
  · rcases hfirst with ⟨_, hup, _⟩ | ⟨hf, _⟩
    · exact hup
    · rw [hf] at ht
      cases ht
  · rcases hsecond with ⟨hn, _⟩ | ⟨_, hle, _⟩
    · rw [hn] at hi
      cases hi
    · exact hle

/-- A user program at the start of RAM that makes an environment call. -/
def userEcall : Vm :=
  { cpu := { supervisor with priviledge := uMode, csrs := fun _ => 0 }
    bus := busOf (ramOf [(0, 0x73)]) }

/-- It ends up at the vector of M. -/
theorem user_ecall_at_vector : AtTrapVector (cpuStep userEcall).cpu :=
  ((privilege_changes_controlled userEcall (by decide) (by decide)).1 (by decide)).2

/-- The privilege and the MPP field, each one of the three modes. -/
structure ModesLegal (cpu : Cpu) : Prop where
  priviledge : Legal cpu.priviledge
  mpp : Legal (mppOf (cpu.csrs csrMstatus))

/-- The step writes the reserved value 2 to the MPP field of `mstatus`. -/
def WritesReservedMpp (vm : Vm) : Prop :=
  ∃ bus p value, translateAddress vm.cpu vm.bus vm.cpu.pc .fetch = (bus, .ok p) ∧
    vm.cpu.priviledge = mMode ∧
    csrRequest (fetched vm bus) (vmBusRead32 bus p) = some (csrMstatus, value) ∧
    mppOf value = 2

/-- MPP is made of two bits of `mstatus`. -/
theorem mpp_congr {x y : BitVec 64} (h11 : x.getLsbD 11 = y.getLsbD 11)
    (h12 : x.getLsbD 12 = y.getLsbD 12) : mppOf x = mppOf y := by
  apply BitVec.eq_of_getLsbD_eq
  intro i hi
  match i with
  | 0 => rw [mpp_get _ 0 (by omega), mpp_get _ 0 (by omega), h11]
  | 1 => rw [mpp_get _ 1 (by omega), mpp_get _ 1 (by omega), h12]
  | i + 2 => rw [mpp_high _ (by omega), mpp_high _ (by omega)]

/-- Either trap entry keeps the modes legal. -/
theorem trap_to_s_modes {cpu : Cpu} (h : ModesLegal cpu) (cause tvalue : BitVec 64) :
    ModesLegal (trapToS cpu cause tvalue) := by
  refine ⟨Or.inr (Or.inl rfl), ?_⟩
  rw [trap_to_s_csrs, if_pos rfl,
    mpp_congr (x := sTrapStatus cpu) (y := cpu.csrs csrMstatus) (s_trap_status_get cpu 11)
      (s_trap_status_get cpu 12)]
  exact h.mpp

theorem trap_to_m_modes {cpu : Cpu} (h : ModesLegal cpu) (cause tvalue : BitVec 64) :
    ModesLegal (trapToM cpu cause tvalue) := by
  refine ⟨Or.inr (Or.inr rfl), ?_⟩
  rw [trap_to_m_csrs, if_pos rfl, mpp_after_m h.priviledge.le]
  exact h.priviledge

theorem modes_invariant : ControlInvariant ModesLegal := by
  refine ⟨fun h hcsrs hpriv => ⟨?_, ?_⟩, fun h ha => ⟨h.priviledge, ?_⟩,
    fun h _ => trap_to_s_modes h _ _, fun h => trap_to_m_modes h _ _⟩
  · rw [hpriv]
    exact h.priviledge
  · rw [hcsrs]
    exact h.mpp
  · rw [set_csr_csrs, if_neg]
    · exact h.mpp
    · rcases ha with rfl | rfl <;> decide

/-- M-level CSRs can be written in M only. -/
theorem can_write_machine {addr : BitVec 12} {priv : BitVec 8} (hp : priv ≤ mMode)
    (haddr : (addr >>> 8) &&& 0x03 = 3) (h : csrCanWrite addr priv = true) : priv = mMode := by
  unfold csrCanWrite at h
  split at h
  · cases h
  split at h
  · cases h
  · rename_i hle
    rw [haddr] at hle
    unfold mMode at hp ⊢
    bv_omega

/-- A CSR write keeps MPP legal unless it puts 2 there. -/
theorem writes_modes {cpu cpu' : Cpu} {addr : BitVec 12} {value : BitVec 64}
    (hm : Legal (mppOf (cpu.csrs csrMstatus))) (h : Writes cpu addr value cpu')
    (hok : addr = csrMstatus → mppOf value ≠ 2) : Legal (mppOf (cpu'.csrs csrMstatus)) := by
  by_cases ha : addr = csrMstatus
  · subst ha
    have hb : ∀ i, mstatusWriteMask.getLsbD i = true → i < 64 →
        (blend mstatusWriteMask (cpu.csrs csrMstatus) value).getLsbD i = value.getLsbD i := by
      intro i hmask hi
      simp only [blend, BitVec.getLsbD_or, BitVec.getLsbD_and, BitVec.getLsbD_not, hmask, hi,
        decide_true, Bool.not_true, Bool.and_false, Bool.and_true, Bool.false_or]
    have hmask : (csrTable csrMstatus).writeMask = mstatusWriteMask := rfl
    rw [h.named rfl, hmask,
      mpp_congr (hb 11 (by decide) (by omega)) (hb 12 (by decide) (by omega))]
    exact legal_of_le (mpp_le _) (hok rfl)
  · have hoff := h.mstatus ha
    rw [mpp_congr (hoff.bit (by omega) (by decide)) (hoff.bit (by omega) (by decide))]
    exact hm

/-- A step keeps the modes legal unless it writes 2 to MPP. -/
theorem modes_kept {vm : Vm} (h : ModesLegal vm.cpu) (hok : ¬ WritesReservedMpp vm) :
    KeptBy ModesLegal vm := by
  refine ⟨fun hwrite hw => ⟨?_, ?_⟩, fun _ => ⟨?_, ?_⟩, fun _ => ⟨h.mpp, ?_⟩⟩
  · rw [writes_eq hw]
    exact h.priviledge
  · obtain ⟨bus, p, ht, hreq, hcan⟩ := hwrite
    have hmpp : Legal (mppOf ((beginStep vm.cpu).csrs csrMstatus)) := h.mpp
    refine writes_modes hmpp hw ?_
    rintro rfl h2
    have hm := can_write_machine h.priviledge.le (by decide) hcan
    exact hok ⟨bus, p, _, ht, hm, hreq, h2⟩
  · unfold sretCpu
    dsimp only
    split <;> decide
  · have hkept : mppOf (sretStatus (vm.cpu.csrs csrMstatus)) = mppOf (vm.cpu.csrs csrMstatus) :=
      mpp_congr (sret_status_get _ 11) (sret_status_get _ 12)
    exact hkept ▸ h.mpp
  · have hzero : mppOf (mretStatus (vm.cpu.csrs csrMstatus)) = mppOf 0 :=
      mpp_congr (mret_status_get _ 11) (mret_status_get _ 12)
    have hlegal : Legal (mppOf 0) := by decide
    exact hzero ▸ hlegal

theorem guarded_modes {vm : Vm} (h : GuardedRun (fun vm => ¬ WritesReservedMpp vm) vm) :
    ModesLegal vm.cpu := by
  refine modes_invariant.run ⟨Or.inr (Or.inr rfl), by decide⟩ (fun h _ => ?_) modes_kept h
  rw [set_pending_eq]
  exact ⟨h.priviledge, h.mpp⟩

/-- As long as no step writes 2 to MPP, the current privilege and the one that
translations go by are modes of the machine, in every state of every run. -/
theorem privilege_legal {vm : Vm} (h : GuardedRun (fun vm => ¬ WritesReservedMpp vm) vm) :
    Legal vm.cpu.priviledge ∧ ∀ acc, Legal (effectivePriviledge vm.cpu acc) := by
  have hmodes := guarded_modes h
  refine ⟨hmodes.priviledge, fun acc => ?_⟩
  unfold effectivePriviledge
  dsimp only
  split
  · exact hmodes.mpp
  · exact hmodes.priviledge

/-- A start that writes mstatus, returns to S and traps there. -/
theorem privilege_legal_startup :
    Legal (quietly 15 (vmInit startup)).cpu.priviledge ∧
      ∀ acc, Legal (effectivePriviledge (quietly 15 (vmInit startup)).cpu acc) := by
  have hasked : ∀ k < 15, (stepWrite (quietly k (vmInit startup))).all
      (fun w => decide (w.1 = csrMstatus → mppOf w.2 ≠ 2)) = true := by decide +kernel
  refine privilege_legal (quietly_guarded startup fun k hk => ?_)
  rintro ⟨bus, p, value, ht, _, hreq, hmpp⟩
  have hwrite : stepWrite (quietly k (vmInit startup)) = some (csrMstatus, value) := by
    simpa only [stepWrite, ht] using hreq
  have hk' := hasked k hk
  rw [hwrite] at hk'
  exact of_decide_eq_true hk' rfl hmpp

/-- `lui x1, 1; csrw mstatus, x1; mret`: the value has 2 in its MPP field. -/
def reservedMpp : Memory := ramOf [(0, 0x30009073000010B7), (8, 0x30200073)]

/-- Three iterations after reset, the machine is in mode 2. -/
theorem reserved_mode_reached : ∃ vm, Reachable vm ∧ vm.cpu.priviledge = 2 :=
  ⟨_, .iterate _ .quiet (.iterate _ .quiet (.iterate _ .quiet (.init reservedMpp))),
    by decide⟩

end RiscvVm.Proofs
