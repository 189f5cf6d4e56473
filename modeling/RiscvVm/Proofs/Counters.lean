import RiscvVm.Proofs.Precise
import RiscvVm.Proofs.Invariant

namespace RiscvVm.Proofs

/-- The instruction of the step, or its fetch, raises an exception. -/
def RaisesException (vm : Vm) : Prop :=
  ∃ bus cause tvalue, processed vm = (fetched vm bus).raiseException cause tvalue

/-- When a step looks whether to count its instruction, `trap_taken` is neither
left over from before nor set by an interrupt. -/
theorem taken_iff_raises (vm : Vm) :
    (processed vm).cpu.trapTaken = true ↔ RaisesException vm := by
  constructor
  · intro h
    exact ⟨_, _, _, processed_trapped h⟩
  · rintro ⟨bus, cause, tvalue, h⟩
    rw [h]
    exact raise_exception_taken _ _ _

/-- The step writes neither counter by a CSR instruction. -/
def SparesCounters (vm : Vm) : Prop :=
  ∀ a ∈ [csrMcycle, csrMinstret], ∀ value, ¬ WritesCsr vm a value

/-- An instruction leaves the counters as the start of its step has left them. -/
theorem executes_counters {vm done : Vm} {bus : Bus} {p : BitVec 64} (hno : SparesCounters vm)
    (ht : translateAddress vm.cpu vm.bus vm.cpu.pc .fetch = (bus, .ok p))
    (hx : Executes (fetched vm bus) (vmBusRead32 bus p) done) :
    ∀ a ∈ [csrMcycle, csrMinstret], done.cpu.csrs a = (beginStep vm.cpu).csrs a := by
  intro a ha
  have hcases : a = csrMcycle ∨ a = csrMinstret := by simpa using ha
  cases executes_control hx with
  | plain hcsrs hpriv htaken => exact congrFun hcsrs a
  | trap he =>
    have hframe := raise_exception_frame (fetched vm bus).cpu
      (exceptionRecord (fetched vm bus) (vmBusRead32 bus p)).1
      (exceptionRecord (fetched vm bus) (vmBusRead32 bus p)).2
    rw [he]
    rcases hcases with rfl | rfl
    · exact hframe.mcycle
    · exact hframe.minstret
  | csr addr new cpu hreq hcan hw hcsrs hpriv htaken =>
    rw [hcsrs]
    refine hw.other ?_ ?_
    · rintro rfl
      exact hno a ha new ⟨bus, p, ht, hreq, hcan⟩
    · rcases hcases with rfl | rfl <;> decide
  | sret hs hpriv he =>
    rw [he, sret_eq _ hpriv]
    rcases hcases with rfl | rfl <;> rfl
  | mret hm hpriv he =>
    rw [he, mret_eq _ hpriv]
    rcases hcases with rfl | rfl <;> rfl

/-- One step counts one cycle, and one instruction unless it raises an
exception. -/
theorem step_counters {vm : Vm} (hno : SparesCounters vm) :
    (cpuStep vm).cpu.csrs csrMcycle = vm.cpu.csrs csrMcycle + 1 ∧
      (cpuStep vm).cpu.csrs csrMinstret = vm.cpu.csrs csrMinstret +
        if (processed vm).cpu.trapTaken then 0 else 1 := by
  rcases step_cases vm with ⟨_, hp, hs⟩ | ⟨bus, p, done, ht, hx, hp, hs⟩
  · have hframe := raise_exception_frame (fetched vm vm.bus).cpu excInstrPageFault vm.cpu.pc
    have htaken : (processed vm).cpu.trapTaken = true := by
      rw [hp]
      exact raise_exception_taken _ _ _
    rw [hs, htaken, hp]
    refine ⟨hframe.mcycle, hframe.minstret.trans ?_⟩
    simp [beginStep, csrMinstret, csrMcycle]
  · have hdone := executes_counters hno ht hx
    have hframe := check_interrupts_frame (processed vm).cpu
    have hcycle := hdone csrMcycle (by simp)
    have hinstret := hdone csrMinstret (by simp)
    rw [hs]
    refine ⟨hframe.mcycle.trans ?_, hframe.minstret.trans ?_⟩
    · rw [hp, retire_csrs done (by decide), hcycle]
      rfl
    · have hbegin : (beginStep vm.cpu).csrs csrMinstret = vm.cpu.csrs csrMinstret :=
        begin_csrs _ (by decide)
      rw [hp, retire_taken, retire_cpu]
      cases done.cpu.trapTaken with
      | true => simp [hinstret, hbegin]
      | false => simp [hinstret, hbegin]

/-- How many of the first `n` steps raise no exception. -/
def retirements (vm : Vm) (n : Nat) : Nat :=
  ((List.range n).filter fun i => !(processed (Nat.repeat cpuStep i vm)).cpu.trapTaken).length

theorem retirements_succ (vm : Vm) (n : Nat) :
    retirements vm (n + 1) = retirements vm n +
      if (processed (Nat.repeat cpuStep n vm)).cpu.trapTaken then 0 else 1 := by
  unfold retirements
  rw [List.range_succ, List.filter_append, List.length_append]
  cases h : (processed (Nat.repeat cpuStep n vm)).cpu.trapTaken <;> simp [h]

theorem run_counters {vm : Vm} {n : Nat}
    (hno : ∀ i < n, SparesCounters (Nat.repeat cpuStep i vm)) :
    (Nat.repeat cpuStep n vm).cpu.csrs csrMcycle = vm.cpu.csrs csrMcycle + BitVec.ofNat 64 n ∧
      (Nat.repeat cpuStep n vm).cpu.csrs csrMinstret =
        vm.cpu.csrs csrMinstret + BitVec.ofNat 64 (retirements vm n) := by
  induction n with
  | zero => simp [Nat.repeat, retirements]
  | succ n ih =>
    obtain ⟨hcycle, hinstret⟩ := ih fun i hi => hno i (by omega)
    obtain ⟨hstep, hcount⟩ := step_counters (hno n (by omega))
    refine ⟨?_, ?_⟩
    · rw [Nat.repeat, hstep, hcycle, BitVec.ofNat_add, BitVec.add_assoc]
      rfl
    · rw [Nat.repeat, hcount, hinstret, retirements_succ, BitVec.ofNat_add, BitVec.add_assoc]
      split <;> rfl

/-- The user's counters are those of M, wherever they may be read. -/
theorem counter_reads (vm : Vm) {a b : BitVec 12}
    (h : (a, b) ∈ [(csrCycle, csrMcycle), (csrInstret, csrMinstret)]) :
    csrRead vm a =
      if csrCanRead vm.cpu a vm.cpu.priviledge then some (vm.cpu.csrs b) else none := by
  simp only [List.mem_cons, List.not_mem_nil, or_false, Prod.mk.injEq] at h
  rcases h with ⟨rfl, rfl⟩ | ⟨rfl, rfl⟩
  · unfold csrRead
    cases csrCanRead vm.cpu csrCycle vm.cpu.priviledge <;> rfl
  · unfold csrRead
    cases csrCanRead vm.cpu csrInstret vm.cpu.priviledge <;> rfl

/-- After any number of steps that do not write them, mcycle has counted the
steps and minstret those without an exception, and cycle and instret read as
they do. -/
theorem counters_count_steps {vm : Vm} {n : Nat}
    (hno : ∀ i < n, SparesCounters (Nat.repeat cpuStep i vm)) :
    (Nat.repeat cpuStep n vm).cpu.csrs csrMcycle = vm.cpu.csrs csrMcycle + BitVec.ofNat 64 n ∧
      (Nat.repeat cpuStep n vm).cpu.csrs csrMinstret =
        vm.cpu.csrs csrMinstret + BitVec.ofNat 64 (retirements vm n) ∧
      (∀ i, (processed (Nat.repeat cpuStep i vm)).cpu.trapTaken = true ↔
        RaisesException (Nat.repeat cpuStep i vm)) ∧
      ∀ (m : Vm), ∀ entry ∈ [(csrCycle, csrMcycle), (csrInstret, csrMinstret)],
        csrRead m entry.1 =
          if csrCanRead m.cpu entry.1 m.cpu.priviledge then some (m.cpu.csrs entry.2)
          else none := by
  obtain ⟨hcycle, hinstret⟩ := run_counters hno
  exact ⟨hcycle, hinstret, fun i => taken_iff_raises _, fun m _ hmem => counter_reads m hmem⟩

/-- A start of 15 steps, of which one is a fetch that faults. -/
theorem counters_startup :
    (Nat.repeat cpuStep 15 (vmInit startup)).cpu.csrs csrMcycle = 0 + BitVec.ofNat 64 15 ∧
      (Nat.repeat cpuStep 15 (vmInit startup)).cpu.csrs csrMinstret = 0 + BitVec.ofNat 64 14 := by
  have hasked : ∀ k < 15, (stepWrite (Nat.repeat cpuStep k (vmInit startup))).all
      (fun w => decide (w.1 ∉ [csrMcycle, csrMinstret])) = true := by decide +kernel
  have hretired : retirements (vmInit startup) 15 = 14 := by decide +kernel
  obtain ⟨hcycle, hinstret, _⟩ := @counters_count_steps (vmInit startup) 15
    fun k hk a ha value hwrite => hwrite.meets (hasked k hk) ha
  rw [hretired] at hinstret
  exact ⟨hcycle, hinstret⟩

end RiscvVm.Proofs
