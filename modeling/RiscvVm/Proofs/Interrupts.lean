import RiscvVm.Proofs.Precise

namespace RiscvVm.Proofs

/-- An interrupt is pending, enabled and takeable at the current privilege. -/
def Takeable (cpu : Cpu) (cause : Nat) : Prop :=
  (cpu.csrs csrMip).getLsbD cause = true ∧ (cpu.csrs csrMie).getLsbD cause = true ∧
    (((cpu.csrs csrMideleg).getLsbD cause = false ∧
        (cpu.priviledge < mMode ∨ (cpu.csrs csrMstatus).getLsbD 3 = true)) ∨
      ((cpu.csrs csrMideleg).getLsbD cause = true ∧
        (cpu.priviledge = uMode ∨
          (cpu.priviledge = sMode ∧ (cpu.csrs csrMstatus).getLsbD 1 = true))))

def interruptCauses : List Nat := [1, 3, 5, 7, 9, 11]

/-- The step ends by entering an interrupt trap from the state its instruction
or exception has left. -/
def EntersInterrupt (vm : Vm) : Prop :=
  ∃ cause ∈ interruptCauses, (cpuStep vm).cpu =
    { raiseInterrupt (processed vm).cpu (BitVec.ofNat 64 cause) with pcWritten := false }

theorem mem_priority_iff (cause : Nat) : cause ∈ interruptCauses ↔ cause ∈ priority := by
  simp only [interruptCauses, priority, List.mem_cons, List.not_mem_nil, or_false]
  omega

theorem takeable_of {cpu : Cpu} {cause : Nat} (h : Takeable cpu cause) :
    takeable cpu cause = true := by
  obtain ⟨hip, hie, ⟨hd, hm⟩ | ⟨hd, hs⟩⟩ := h
  · unfold takeable
    rw [BitVec.getLsbD_and, hip, hie, hd]
    rcases hm with hlt | hmie
    · have hne : (cpu.priviledge == mMode) = false := by
        rw [beq_eq_false_iff_ne]
        intro he
        rw [he] at hlt
        revert hlt
        decide
      rw [hne]
      rfl
    · rw [hmie]
      simp
  · unfold takeable
    rw [BitVec.getLsbD_and, hip, hie, hd]
    rcases hs with hu | ⟨hs, hsie⟩
    · rw [hu]
      rfl
    · rw [hs, hsie]
      rfl

theorem selected_of_takeable {cpu : Cpu} {cause : Nat} (hmem : cause ∈ interruptCauses)
    (h : Takeable cpu cause) : ∃ n ∈ interruptCauses, selected cpu = some n := by
  cases hs : selected cpu with
  | some n => exact ⟨n, (mem_priority_iff n).mpr (selected_mem hs).1, rfl⟩
  | none =>
    refine absurd (takeable_of h) ?_
    exact List.find?_eq_none.mp hs cause ((mem_priority_iff cause).mp hmem)

/-- The fetch of the step faults, the fault goes to S, and an interrupt that is
pending and enabled belongs to M. -/
def FaultHidesInterrupt (vm : Vm) : Prop :=
  fetchedWord vm = none ∧ Delegated vm.cpu csrMedeleg excInstrPageFault.toNat ∧
    ∃ cause ∈ interruptCauses, (vm.cpu.csrs csrMip).getLsbD cause = true ∧
      (vm.cpu.csrs csrMie).getLsbD cause = true ∧ (vm.cpu.csrs csrMideleg).getLsbD cause = false

/-- What a takeable interrupt is after an instruction fault that went to S. -/
theorem takeable_after_fault {vm : Vm} {tvalue : BitVec 64} (cause : Nat) :
    Takeable (trapToS (beginStep vm.cpu) excInstrPageFault tvalue) cause ↔
      (vm.cpu.csrs csrMip).getLsbD cause = true ∧ (vm.cpu.csrs csrMie).getLsbD cause = true ∧
        (vm.cpu.csrs csrMideleg).getLsbD cause = false := by
  have hsie : ((trapToS (beginStep vm.cpu) excInstrPageFault tvalue).csrs csrMstatus).getLsbD 1 =
      false := by
    rw [trap_to_s_csrs, if_pos rfl, s_trap_status_get]
    rfl
  have hip : (trapToS (beginStep vm.cpu) excInstrPageFault tvalue).csrs csrMip =
    vm.cpu.csrs csrMip := rfl
  have hie : (trapToS (beginStep vm.cpu) excInstrPageFault tvalue).csrs csrMie =
    vm.cpu.csrs csrMie := rfl
  have hdeleg : (trapToS (beginStep vm.cpu) excInstrPageFault tvalue).csrs csrMideleg =
    vm.cpu.csrs csrMideleg := rfl
  unfold Takeable
  rw [hip, hie, hdeleg, hsie, trap_to_s_priviledge]
  constructor
  · rintro ⟨hp, he, ⟨hd, _⟩ | ⟨_, hu | ⟨_, hf⟩⟩⟩
    · exact ⟨hp, he, hd⟩
    · exact absurd hu (by decide)
    · cases hf
  · rintro ⟨hp, he, hd⟩
    exact ⟨hp, he, Or.inl ⟨hd, Or.inl (by decide)⟩⟩

/-- The cause an interrupt records is not that of a page fault. -/
theorem interrupt_cause_ne (n : Nat) : interruptCause n ≠ excInstrPageFault := by
  intro h
  have hb := congrArg (fun v => v.getLsbD 63) h
  simp only [interruptCause, BitVec.getLsbD_or, Bits.getLsbD_one_shift 63 63 (show 63 < 64 by omega)] at hb
  simp [excInstrPageFault] at hb

/-- After a fetch fault that went to S, the state is that of no interrupt. -/
theorem fault_enters_none {vm : Vm} (hnone : fetchedWord vm = none)
    (hcpu : (processed vm).cpu = trapToS (beginStep vm.cpu) excInstrPageFault vm.cpu.pc) :
    ¬ EntersInterrupt vm := by
  rintro ⟨n, hn, he⟩
  have hlt : n < 64 := by
    simp only [interruptCauses, List.mem_cons, List.not_mem_nil, or_false] at hn
    omega
  rw [(step_of_fault hnone).1, hcpu, raise_interrupt_eq _ hlt] at he
  by_cases hd : Delegated (trapToS (beginStep vm.cpu) excInstrPageFault vm.cpu.pc) csrMideleg n
  · rw [if_pos hd] at he
    have hcause := congrArg (fun cpu => cpu.csrs csrScause) he
    exact interrupt_cause_ne n hcause.symm
  · rw [if_neg hd] at he
    have hpriv : sMode = mMode := congrArg Cpu.priviledge he
    exact absurd hpriv (by decide)

theorem processed_of_fault {vm : Vm} (hnone : fetchedWord vm = none) : (processed vm).cpu =
    if Delegated vm.cpu csrMedeleg excInstrPageFault.toNat then
      trapToS (beginStep vm.cpu) excInstrPageFault vm.cpu.pc
    else trapToM (beginStep vm.cpu) excInstrPageFault vm.cpu.pc := by
  rw [(step_of_fault hnone).2, raise_exception_cpu, raise_exception_eq _ (by decide)]
  rfl

/-- The interrupt behind the fault is takeable and not taken. -/
theorem fault_starves {vm : Vm} (h : FaultHidesInterrupt vm) :
    (∃ cause ∈ interruptCauses, Takeable (processed vm).cpu cause) ∧ ¬ EntersInterrupt vm := by
  obtain ⟨hnone, hd, cause, hmem, hpend⟩ := h
  have hcpu := processed_of_fault hnone
  rw [if_pos hd] at hcpu
  refine ⟨⟨cause, hmem, ?_⟩, fault_enters_none hnone hcpu⟩
  rw [hcpu]
  exact (takeable_after_fault cause).mpr hpend

/-- A step enters an interrupt whenever one is takeable once its instruction or
exception has been processed. -/
def NotStarved (vm : Vm) : Prop :=
  (∃ cause ∈ interruptCauses, Takeable (processed vm).cpu cause) → EntersInterrupt vm

theorem not_starved_iff (vm : Vm) : NotStarved vm ↔ ¬ FaultHidesInterrupt vm := by
  constructor
  · intro h hides
    obtain ⟨ht, hno⟩ := fault_starves hides
    exact hno (h ht)
  · rintro hno ⟨cause, hmem, ht⟩
    obtain ⟨n, hn, hsel⟩ := selected_of_takeable hmem ht
    cases hw : fetchedWord vm with
    | none =>
      exfalso
      have hcpu := processed_of_fault hw
      by_cases hd : Delegated vm.cpu csrMedeleg excInstrPageFault.toNat
      · rw [if_pos hd] at hcpu
        rw [hcpu] at ht
        exact hno ⟨hw, hd, cause, hmem, (takeable_after_fault cause).mp ht⟩
      · rw [if_neg hd] at hcpu
        rw [hcpu, selected_after_m] at hsel
        cases hsel
    | some word =>
      refine ⟨n, hn, ?_⟩
      rw [step_of_word hw, finish, on_cpu_cpu, check_interrupts_eq, hsel]

/-- No interrupt is starved, except by a fetch fault that goes to S while an
interrupt of M is pending: such a step ends before the interrupt check. A run
of any length without such a step starves nothing. -/
theorem no_starvation (vm : Vm) :
    (NotStarved vm ↔ ¬ FaultHidesInterrupt vm) ∧
    ∀ n, (∀ k < n, ¬ FaultHidesInterrupt (Nat.repeat cpuStep k vm)) →
      ∀ k < n, NotStarved (Nat.repeat cpuStep k vm) :=
  ⟨not_starved_iff vm, fun _ h k hk => (not_starved_iff _).mpr (h k hk)⟩

/-- A supervisor with nothing mapped, whose fetch faults go to a handler that
faults again, and whose machine timer interrupt is pending and enabled. -/
def starved : Vm :=
  { cpu :=
      { supervisor with
        csrs := fun a =>
          if a = csrSatp then 0x8000000000080001
          else if a = csrMstatus then 0x100
          else if a = csrMedeleg then 0x1000
          else if a = csrStvec then 0x80000000
          else if a = csrMie ∨ a = csrMip then 0x80
          else 0 }
    bus := busOf (ramOf []) }

/-- What every step of `starved` keeps. -/
structure Starving (vm : Vm) : Prop where
  bus : vm.bus = starved.bus
  pc : vm.cpu.pc = starved.cpu.pc
  priviledge : vm.cpu.priviledge = sMode
  csrs : ∀ a ∈ [csrSatp, csrMstatus, csrMedeleg, csrStvec, csrMie, csrMip, csrMideleg],
    vm.cpu.csrs a = starved.cpu.csrs a

theorem Starving.hides {vm : Vm} (h : Starving vm) : FaultHidesInterrupt vm := by
  have hword : fetchedWord starved = none := by decide +kernel
  refine ⟨?_, ⟨?_, ?_⟩, 7, by decide, ?_, ?_, ?_⟩
  · unfold fetchedWord at hword ⊢
    rw [h.bus, h.pc, translate_congr starved.cpu vm.cpu (h.csrs _ (by decide))
      (h.csrs _ (by decide)) h.priviledge]
    exact hword
  · rw [h.priviledge]
    decide
  · rw [h.csrs csrMedeleg (by decide)]
    decide
  · rw [h.csrs csrMip (by decide)]
    decide
  · rw [h.csrs csrMie (by decide)]
    decide
  · rw [h.csrs csrMideleg (by decide)]
    decide

theorem Starving.step {vm : Vm} (h : Starving vm) : Starving (cpuStep vm) := by
  obtain ⟨hnone, hd, _⟩ := h.hides
  have hcpu := processed_of_fault hnone
  rw [if_pos hd] at hcpu
  obtain ⟨hs, hp⟩ := step_of_fault hnone
  have hmstatus : sTrapStatus (beginStep vm.cpu) = starved.cpu.csrs csrMstatus := by
    unfold sTrapStatus
    rw [begin_csrs vm.cpu (show csrMstatus ≠ csrMcycle by decide), begin_priviledge, h.priviledge,
      h.csrs csrMstatus (by decide)]
    decide
  rw [hs]
  refine ⟨?_, ?_, ?_, fun a ha => ?_⟩
  · rw [hp]
    exact h.bus
  · rw [hcpu, trap_to_s_pc, begin_csrs vm.cpu (show csrStvec ≠ csrMcycle by decide),
      h.csrs csrStvec (by decide)]
    decide
  · rw [hcpu]
    rfl
  · have hkeep := h.csrs a ha
    rw [hcpu]
    simp only [List.mem_cons, List.not_mem_nil, or_false] at ha
    rcases ha with rfl | rfl | rfl | rfl | rfl | rfl | rfl
    all_goals first
      | exact hmstatus
      | exact hkeep

theorem starved_forever (n : Nat) : Starving (Nat.repeat cpuStep n starved) := by
  induction n with
  | zero => exact ⟨rfl, rfl, rfl, fun a _ => rfl⟩
  | succ n ih => exact ih.step

/-- The pending timer interrupt of `starved` is not taken, in its first step or
in any later one. -/
theorem timer_starved_forever :
    ¬ NotStarved starved ∧ ∀ n, ¬ NotStarved (Nat.repeat cpuStep n starved) := by
  have h : ∀ n, ¬ NotStarved (Nat.repeat cpuStep n starved) := by
    intro n hn
    obtain ⟨ht, hno⟩ := fault_starves (starved_forever n).hides
    exact hno (hn ht)
  exact ⟨h 0, h⟩

/-- The interrupt the step takes. -/
def interruptTaken (vm : Vm) : Option Nat :=
  match fetchedWord vm with
  | none => none
  | some _ => selected (processed vm).cpu

/-- The step is its instruction or exception followed by that interrupt. -/
theorem step_cpu_eq (vm : Vm) : ∃ pcWritten, (cpuStep vm).cpu =
    { (match interruptTaken vm with
        | none => (processed vm).cpu
        | some cause => raiseInterrupt (processed vm).cpu (BitVec.ofNat 64 cause)) with
      pcWritten := pcWritten } := by
  unfold interruptTaken
  cases hw : fetchedWord vm with
  | none => exact ⟨(processed vm).cpu.pcWritten, by rw [(step_of_fault hw).1]⟩
  | some word =>
    refine ⟨false, ?_⟩
    have hcheck := check_interrupts_eq (processed vm).cpu
    rw [step_of_word hw, finish, on_cpu_cpu]
    exact congrArg (fun cpu : Cpu => { cpu with pcWritten := false }) hcheck

/-- The level an exception of the step is entered at. -/
def exceptionLevel (vm : Vm) : Option (BitVec 8) :=
  if (processed vm).cpu.trapTaken then some (processed vm).cpu.priviledge else none

/-- The levels of the traps entered in the step. -/
def trapLevels (vm : Vm) : List (BitVec 8) :=
  (exceptionLevel vm).toList ++
    ((interruptTaken vm).map fun _ => (cpuStep vm).cpu.priviledge).toList

theorem exception_level_some {vm : Vm} {level : BitVec 8} (h : exceptionLevel vm = some level) :
    (processed vm).cpu.trapTaken = true ∧ (processed vm).cpu.priviledge = level := by
  unfold exceptionLevel at h
  split at h
  · exact ⟨‹_›, Option.some.inj h⟩
  · cases h

/-- An exception at M leaves no interrupt to take. -/
theorem no_interrupt_after_m {vm : Vm} (h : exceptionLevel vm = some mMode) :
    interruptTaken vm = none := by
  obtain ⟨ht, hp⟩ := exception_level_some h
  have hcpu : (processed vm).cpu =
      trapToM (beginStep vm.cpu) (stepException vm).1 (stepException vm).2 := by
    rcases exception_entry ht with ⟨_, he⟩ | ⟨_, he⟩
    · rw [he, trap_to_s_priviledge] at hp
      exact absurd hp (by decide)
    · exact he
  unfold interruptTaken
  split
  · rfl
  · rw [hcpu, selected_after_m]

/-- An interrupt after an exception at S is entered at M, on top of it. -/
theorem interrupt_after_s {vm : Vm} {n : Nat} (h : exceptionLevel vm = some sMode)
    (hn : interruptTaken vm = some n) :
    (processed vm).cpu = trapToS (beginStep vm.cpu) (stepException vm).1 (stepException vm).2 ∧
      (cpuStep vm).cpu =
        { trapToM (processed vm).cpu (interruptCause n) 0 with pcWritten := false } := by
  obtain ⟨ht, hp⟩ := exception_level_some h
  have hcpu : (processed vm).cpu =
      trapToS (beginStep vm.cpu) (stepException vm).1 (stepException vm).2 := by
    rcases exception_entry ht with ⟨_, he⟩ | ⟨_, he⟩
    · exact he
    · rw [he, trap_to_m_priviledge] at hp
      exact absurd hp (by decide)
  refine ⟨hcpu, ?_⟩
  unfold interruptTaken at hn
  cases hw : fetchedWord vm with
  | none =>
    rw [hw] at hn
    cases hn
  | some word =>
    rw [hw] at hn
    dsimp only at hn
    rw [hcpu] at hn
    rw [step_of_word hw, finish, on_cpu_cpu, hcpu, check_after_s hn]

theorem mpp_field (mstatus : BitVec 64) :
    mppOf mstatus = (mstatus.extractLsb' 11 2).setWidth 8 := by
  have hm := congrArg (BitVec.setWidth 8) (Bits.shift_and_mask mstatus 11 2)
  rwa [BitVec.setWidth_setWidth_of_le _ (by omega)] at hm

theorem mpp_get (mstatus : BitVec 64) (i : Nat) (hi : i < 2) :
    (mppOf mstatus).getLsbD i = mstatus.getLsbD (11 + i) := by
  have h8 : i < 8 := by omega
  simp [mpp_field, hi, h8]

theorem mpp_high (mstatus : BitVec 64) {i : Nat} (hi : 2 ≤ i) :
    (mppOf mstatus).getLsbD i = false := by
  have hno : ¬ i < 2 := by omega
  simp [mpp_field, hno]

/-- A trap to M records the privilege it came from. -/
theorem mpp_after_m {cpu : Cpu} (hp : cpu.priviledge ≤ mMode) :
    mppOf (mTrapStatus cpu) = cpu.priviledge := by
  apply BitVec.eq_of_getLsbD_eq
  intro i hi
  match i with
  | 0 => rw [mpp_get _ 0 (by omega), m_trap_status_get]; rfl
  | 1 => rw [mpp_get _ 1 (by omega), m_trap_status_get]; rfl
  | i + 2 =>
    rw [mpp_high _ (by omega)]
    have hlt : cpu.priviledge.toNat < 4 := by
      have := BitVec.le_def.mp hp
      have h3 : mMode.toNat = 3 := rfl
      omega
    have hpow : 2 ^ 2 ≤ 2 ^ (i + 2) := Nat.pow_le_pow_right (by omega) (by omega)
    rw [BitVec.getLsbD, Nat.testBit_lt_two_pow (Nat.lt_of_lt_of_le hlt hpow)]

/-- No trap record is overwritten inside a step. -/
theorem trap_records_kept (vm : Vm) :
    (trapLevels vm).Nodup ∧
    (exceptionLevel vm = some mMode → interruptTaken vm = none) ∧
    (∀ n, exceptionLevel vm = some sMode → interruptTaken vm = some n →
      (cpuStep vm).cpu.priviledge = mMode ∧
      (cpuStep vm).cpu.csrs csrMcause = interruptCause n ∧
      (cpuStep vm).cpu.csrs csrMepc = vm.cpu.csrs csrStvec &&& ~~~0x3#64 ∧
      mppOf ((cpuStep vm).cpu.csrs csrMstatus) = sMode ∧
      (cpuStep vm).cpu.csrs csrSepc = vm.cpu.pc ∧
      (cpuStep vm).cpu.csrs csrScause = (stepException vm).1 ∧
      (cpuStep vm).cpu.csrs csrStval = (stepException vm).2 ∧
      ((cpuStep vm).cpu.csrs csrMstatus).getLsbD 8 = vm.cpu.priviledge.getLsbD 0 ∧
      ((cpuStep vm).cpu.csrs csrMstatus).getLsbD 5 = (vm.cpu.csrs csrMstatus).getLsbD 1) := by
  refine ⟨?_, no_interrupt_after_m, fun n hs hn => ?_⟩
  · unfold trapLevels
    cases hl : exceptionLevel vm with
    | none => cases interruptTaken vm <;> simp
    | some level =>
      obtain ⟨ht, hp⟩ := exception_level_some hl
      cases hn : interruptTaken vm with
      | none => simp
      | some n =>
        rcases exception_entry ht with ⟨_, he⟩ | ⟨_, he⟩
        · have hlev : level = sMode := by rw [← hp, he]; rfl
          rw [hlev] at hl
          have hm : (cpuStep vm).cpu.priviledge = mMode := by rw [(interrupt_after_s hl hn).2]; rfl
          rw [hlev, Option.map_some, hm]
          decide
        · have hlev : level = mMode := by rw [← hp, he]; rfl
          rw [hlev] at hl
          rw [no_interrupt_after_m hl] at hn
          cases hn
  · obtain ⟨hcpu, hfinal⟩ := interrupt_after_s hs hn
    have hstatus : (cpuStep vm).cpu.csrs csrMstatus = mTrapStatus (processed vm).cpu := by
      rw [hfinal]
      rfl
    have hbit : ∀ i, (i = 5 ∨ i = 8) → ((cpuStep vm).cpu.csrs csrMstatus).getLsbD i =
        (sTrapStatus (beginStep vm.cpu)).getLsbD i := by
      intro i hi
      rw [hstatus, m_trap_status_get, hcpu]
      rcases hi with rfl | rfl <;> rfl
    have hmpp : mppOf ((cpuStep vm).cpu.csrs csrMstatus) = sMode := by
      rw [hstatus, mpp_after_m]
      · rw [hcpu]
        rfl
      · rw [hcpu]
        exact (by decide : sMode ≤ mMode)
    rw [hbit 8 (Or.inr rfl), hbit 5 (Or.inl rfl), hmpp, s_trap_status_get, s_trap_status_get, hfinal,
      hcpu]
    exact ⟨rfl, rfl, rfl, rfl, rfl, rfl, rfl, rfl, rfl⟩

end RiscvVm.Proofs
