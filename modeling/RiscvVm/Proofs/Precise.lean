import RiscvVm.Proofs.Control

namespace RiscvVm.Proofs

/-- An instruction writes no register but its `rd`, and never `x0`. -/
theorem executes_regs {vm done : Vm} {word : BitVec 32} (h : Executes vm word done) {r : BitVec 5}
    (hr : r = 0 ∨ r ≠ rdOf word) : done.cpu.regs r = vm.cpu.regs r := by
  have hwrite : ∀ (cpu : Cpu) (value : BitVec 64),
      (cpuWriteReg cpu (rdOf word) value).regs r = cpu.regs r := by
    intro cpu value
    rw [write_reg_regs, if_neg]
    rintro ⟨rfl, hz⟩
    rcases hr with h0 | hne
    · exact hz h0
    · exact hne rfl
  cases h with
  | nop => rfl
  | write value => exact hwrite _ _
  | branch target => rfl
  | link target value => exact hwrite _ _
  | trap hfault => rw [raise_exception_cpu, (raise_exception_frame _ _ _).regs]
  | load width va p bus extend hacc ht => exact hwrite _ _
  | store width va p value bus hacc ht => rw [invalidate_regs]
  | amo width va p new old bus hwidth hacc ht => rw [hwrite, invalidate_regs]
  | lr width va p value bus hlr hwidth hacc ht => exact hwrite _ _
  | sc width va p value bus hsc hwidth hacc ht hres => exact hwrite _ _
  | scFailed width va p bus hsc hwidth hacc ht hres => exact hwrite _ _
  | csr addr new old cpu hreq hw =>
    rw [hwrite, writes_eq (csr_write_cases hw).2]
  | sret hword hpriv => rw [sret_eq word hpriv, set_csr_regs]
  | mret hword hpriv => rw [mret_eq word hpriv, set_csr_regs]

/-- Only the trap sets `trap_taken`. -/
theorem executes_trap_taken {vm done : Vm} {word : BitVec 32} (h : Executes vm word done)
    (hf : vm.cpu.trapTaken = false) (ht : done.cpu.trapTaken = true) :
    done = vm.raiseException (exceptionRecord vm word).1 (exceptionRecord vm word).2 := by
  have hno : done.cpu.trapTaken ≠ vm.cpu.trapTaken := by
    rw [hf, ht]
    decide
  cases executes_control h with
  | plain hcsrs hpriv htaken => exact absurd htaken hno
  | trap he => exact he
  | csr addr new cpu hreq hcan hw hcsrs hpriv htaken => exact absurd htaken hno
  | sret hword hpriv he =>
    rw [he, sret_eq word hpriv] at hno
    exact absurd rfl hno
  | mret hword hpriv he =>
    rw [he, mret_eq word hpriv] at hno
    exact absurd rfl hno

/-- The cause and the value of the exception of a step that raises one. -/
def stepException (vm : Vm) : BitVec 64 × BitVec 64 :=
  match fetchedWord vm with
  | none => (excInstrPageFault, vm.cpu.pc)
  | some word => exceptionRecord vm word

/-- A step that raises an exception: the state its instruction leaves. -/
theorem processed_trapped {vm : Vm} (h : (processed vm).cpu.trapTaken = true) :
    processed vm = (fetched vm (translateAddress vm.cpu vm.bus vm.cpu.pc .fetch).1).raiseException
      (stepException vm).1 (stepException vm).2 := by
  rcases step_cases vm with ⟨ht, hp, _⟩ | ⟨bus, p, done, ht, hx, hp, _⟩
  · rw [hp, stepException, fetchedWord, ht]
  · rw [hp, retire_taken] at h
    have hd := executes_trap_taken hx rfl h
    have hr := retire_trapped h
    rw [hp, hr, hd, stepException, fetchedWord, ht]
    rfl

theorem misaligned_cause_lt (acc : AccessType) : (misalignedCause acc).toNat < 64 := by
  cases acc <;> decide

theorem access_error_lt (acc : AccessType) : (accessTypeToError acc).toNat < 64 := by
  cases acc <;> decide

theorem ecall_cause_lt (priv : BitVec 8) : (ecallCause priv).toNat < 64 := by
  unfold ecallCause
  split
  · decide
  · split <;> decide

theorem exception_cause_lt (vm : Vm) : (stepException vm).1.toNat < 64 := by
  have hrec : ∀ word, (exceptionRecord vm word).1.toNat < 64 := by
    intro word
    unfold exceptionRecord
    split
    · exact ecall_cause_lt _
    split
    · exact (by decide : excBreakpoint.toNat < 64)
    split
    · exact misaligned_cause_lt _
    · exact access_error_lt _
    · exact (by decide : excIllegalInstruction.toNat < 64)
  unfold stepException
  split
  · exact access_error_lt .fetch
  · exact hrec _

/-- The record of an exception at the level that medeleg and the privilege
select. -/
def Recorded (vm : Vm) (cpu : Cpu) (cause tvalue : BitVec 64) : Prop :=
  if Delegated vm.cpu csrMedeleg cause.toNat then
    cpu.csrs csrSepc = vm.cpu.pc ∧ cpu.csrs csrScause = cause ∧ cpu.csrs csrStval = tvalue
  else
    cpu.csrs csrMepc = vm.cpu.pc ∧ cpu.csrs csrMcause = cause ∧ cpu.csrs csrMtval = tvalue

/-- The trap that an exception of the step enters. -/
theorem exception_entry {vm : Vm} (h : (processed vm).cpu.trapTaken = true) :
    (Delegated vm.cpu csrMedeleg (stepException vm).1.toNat ∧
      (processed vm).cpu = trapToS (beginStep vm.cpu) (stepException vm).1 (stepException vm).2) ∨
    (¬ Delegated vm.cpu csrMedeleg (stepException vm).1.toNat ∧
      (processed vm).cpu = trapToM (beginStep vm.cpu) (stepException vm).1 (stepException vm).2) := by
  rw [processed_trapped h, raise_exception_cpu, raise_exception_eq _ (exception_cause_lt vm)]
  by_cases hd : Delegated vm.cpu csrMedeleg (stepException vm).1.toNat
  · exact Or.inl ⟨hd, if_pos hd⟩
  · exact Or.inr ⟨hd, if_neg hd⟩

/-- A trap entry makes the record, and the interrupt check after it keeps it. -/
theorem raise_recorded (vm : Vm) {cause : BitVec 64} (hc : cause.toNat < 64) (tvalue : BitVec 64) :
    Recorded vm (raiseException (beginStep vm.cpu) cause tvalue) cause tvalue ∧
      Recorded vm (cpuCheckInterrupts (raiseException (beginStep vm.cpu) cause tvalue)) cause
        tvalue := by
  unfold Recorded
  rw [raise_exception_eq _ hc]
  by_cases hd : Delegated vm.cpu csrMedeleg cause.toNat
  · have hb : Delegated (beginStep vm.cpu) csrMedeleg cause.toNat := hd
    rw [if_pos hd, if_pos hd, if_pos hb]
    refine ⟨⟨rfl, rfl, rfl⟩, ?_⟩
    cases hsel : selected (trapToS (beginStep vm.cpu) cause tvalue) with
    | none =>
      rw [check_interrupts_eq, hsel]
      exact ⟨rfl, rfl, rfl⟩
    | some n =>
      rw [check_after_s hsel]
      exact ⟨rfl, rfl, rfl⟩
  · have hb : ¬ Delegated (beginStep vm.cpu) csrMedeleg cause.toNat := hd
    rw [if_neg hd, if_neg hd, if_neg hb, check_after_m]
    exact ⟨⟨rfl, rfl, rfl⟩, rfl, rfl, rfl⟩

theorem check_recorded {vm : Vm} (h : (processed vm).cpu.trapTaken = true) :
    Recorded vm (processed vm).cpu (stepException vm).1 (stepException vm).2 ∧
      Recorded vm (cpuCheckInterrupts (processed vm).cpu) (stepException vm).1
        (stepException vm).2 := by
  rw [processed_trapped h]
  exact raise_recorded vm (exception_cause_lt vm) _

/-- An exception is precise. The registers, the reservation and minstret are
those before the step, memory and devices those after the translation of pc,
which has set at most the A bit of one leaf, and the trap CSRs hold the record
of the exception. A step without an exception writes at most its `rd`. -/
theorem exceptions_precise (vm : Vm) :
    ((processed vm).cpu.trapTaken = true →
      (cpuStep vm).cpu.regs = vm.cpu.regs ∧
      (cpuStep vm).cpu.reservation = vm.cpu.reservation ∧
      (cpuStep vm).cpu.csrs csrMinstret = vm.cpu.csrs csrMinstret ∧
      (cpuStep vm).bus = (translateAddress vm.cpu vm.bus vm.cpu.pc .fetch).1 ∧
      ((cpuStep vm).bus = vm.bus ∨
        ∃ addr, WordSet vm.bus (cpuStep vm).bus addr (vmBusRead64 vm.bus addr ||| (1#64 <<< 6))) ∧
      Recorded vm (cpuStep vm).cpu (stepException vm).1 (stepException vm).2) ∧
    ((processed vm).cpu.trapTaken = false →
      ∃ word, fetchedWord vm = some word ∧
        ∀ r, r = 0 ∨ r ≠ rdOf word → (cpuStep vm).cpu.regs r = vm.cpu.regs r) := by
  constructor
  · intro h
    have hbus : (processed vm).bus = (translateAddress vm.cpu vm.bus vm.cpu.pc .fetch).1 := by
      rw [processed_trapped h]
      rfl
    have hframe : TrapFrame (beginStep vm.cpu) (processed vm).cpu := by
      rw [processed_trapped h]
      exact raise_exception_frame _ _ _
    have hrec := check_recorded h
    have hmark : ∀ bus, bus = (translateAddress vm.cpu vm.bus vm.cpu.pc .fetch).1 →
        bus = vm.bus ∨
          ∃ addr, WordSet vm.bus bus addr (vmBusRead64 vm.bus addr ||| (1#64 <<< 6)) := by
      rintro bus rfl
      rcases step_cases vm with ⟨ht, _⟩ | ⟨bus, p, _, ht, _⟩
      · rw [ht]
        exact Or.inl rfl
      · rw [ht]
        rcases translate_ok ht with ⟨hb, _⟩ | ⟨_, addr, _, _, _, _, hset⟩
        · exact Or.inl hb
        · exact Or.inr ⟨addr, hset⟩
    rcases step_cases vm with ⟨_, _, hs⟩ | ⟨_, _, _, _, _, _, hs⟩
    · rw [hs]
      exact ⟨hframe.regs, hframe.reservation, hframe.minstret, hbus, hmark _ hbus, hrec.1⟩
    · rw [hs]
      have hcheck := check_interrupts_frame (processed vm).cpu
      exact ⟨hcheck.regs.trans hframe.regs, hcheck.reservation.trans hframe.reservation,
        hcheck.minstret.trans hframe.minstret, hbus, hmark _ hbus, hrec.2⟩
  · intro h
    rcases step_cases vm with ⟨_, hp, _⟩ | ⟨bus, p, done, ht, hx, hp, hs⟩
    · rw [hp, raise_exception_cpu, raise_exception_taken] at h
      cases h
    · refine ⟨vmBusRead32 bus p, by rw [fetchedWord, ht], fun r hr => ?_⟩
      have hcheck := check_interrupts_frame (processed vm).cpu
      calc (cpuStep vm).cpu.regs r
          = (cpuCheckInterrupts (processed vm).cpu).regs r := by rw [hs]; rfl
        _ = (processed vm).cpu.regs r := by rw [hcheck.regs]
        _ = done.cpu.regs r := by rw [hp, retire_regs]
        _ = vm.cpu.regs r := executes_regs hx hr

end RiscvVm.Proofs
