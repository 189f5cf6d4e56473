import RiscvVm.Proofs.UserRuns

namespace RiscvVm.Proofs

/-- In U any interrupt that is pending and enabled is taken at once, delegated
or not. -/
theorem user_takeable {cpu : Cpu} (hu : cpu.priviledge = uMode) {cause : Nat}
    (hp : (cpu.csrs csrMip).getLsbD cause = true) (he : (cpu.csrs csrMie).getLsbD cause = true) :
    takeable cpu cause = true := by
  have hm : (uMode == mMode) = false := by decide
  have hs : (uMode == sMode) = false := by decide
  unfold takeable
  rw [BitVec.getLsbD_and, hp, he, hu]
  simp only [hm, hs]
  split <;> rfl

/-- A step of U with such an interrupt does not end in U. -/
theorem user_interrupted {vm : Vm} (hu : vm.cpu.priviledge = uMode) {cause : Nat}
    (hc : cause ∈ priority) (hp : (vm.cpu.csrs csrMip).getLsbD cause = true)
    (he : (vm.cpu.csrs csrMie).getLsbD cause = true) : (cpuStep vm).cpu.priviledge ≠ uMode := by
  intro hstay
  obtain ⟨hnone, hproc, hcsrs, _⟩ := user_stays hu hstay
  rw [← hcsrs csrMip (by decide) (by decide)] at hp
  rw [← hcsrs csrMie (by decide) (by decide)] at he
  exact absurd (user_takeable hproc hp he) (List.find?_eq_none.mp hnone cause hc)

/-- After an iteration the pending bit of the timer is its comparison. -/
theorem main_loop_pending (vm : Vm) (host : HostTurn) :
    ((mainLoop vm host).cpu.csrs csrMip).getLsbD irqTimer =
      decide ((mainLoop vm host).bus.timer.mtime ≥ (mainLoop vm host).bus.timer.mtimecmp) := by
  have htimer : (mainLoop vm host).bus.timer = (vmTick (cpuStep vm)).bus.timer := by
    cases host <;> rfl
  rw [htimer, mainLoop, host_cpu]
  exact (tick_pending _).1

/-- The clock of the machine that executes nothing. -/
theorem idle_timer (vm : Vm) (hosts : List HostTurn) :
    (hosts.foldl clockTurn vm).bus.timer =
      { vm.bus.timer with mtime := vm.bus.timer.mtime + BitVec.ofNat 64 hosts.length } := by
  induction hosts generalizing vm with
  | nil => simp
  | cons host hosts ih =>
    rw [List.foldl_cons, ih, (clock_turn_bus vm host).2.1]
    simp only [timerTick, List.length_cons, Timer.mk.injEq, and_true, true_and]
    rw [Nat.add_comm hosts.length, BitVec.ofNat_add, BitVec.add_assoc]
    rfl

section
variable {zone : Zone} {vm : Vm}

/-- A process that has run on until the clock has reached its deadline is
interrupted in its next step. -/
theorem deadline_interrupts (h : Sandboxed zone vm.cpu vm.bus)
    (hmie : (vm.cpu.csrs csrMie).getLsbD irqTimer = true) {hosts : List HostTurn}
    {host next : HostTurn} (hrun : UserRun vm (hosts ++ [host]))
    (hdue : vm.bus.timer.mtimecmp ≤
      vm.bus.timer.mtime + BitVec.ofNat 64 (hosts ++ [host]).length)
    (hu : ((hosts ++ [host]).foldl mainLoop vm).cpu.priviledge = uMode) :
    (mainLoop ((hosts ++ [host]).foldl mainLoop vm) next).cpu.priviledge ≠ uMode := by
  have hcont := (Contained.start h).run hrun
  obtain ⟨_, hcsrs⟩ := hcont.stays hu
  have htimer := hcont.bus.timer
  rw [idle_timer] at htimer
  have hpend :
      ((((hosts ++ [host]).foldl mainLoop vm).cpu.csrs csrMip).getLsbD irqTimer) = true := by
    rw [List.foldl_append, List.foldl_cons, List.foldl_nil] at htimer ⊢
    rw [main_loop_pending, htimer]
    exact decide_eq_true hdue
  rw [main_loop_eq, clock_turn_priviledge]
  refine user_interrupted hu (by decide) hpend ?_
  rw [hcsrs csrMie (by decide)]
  exact hmie

/-- A process in U cannot keep the machine. With the timer's interrupt enabled
and its deadline ahead, at most one iteration after the deadline the machine is
at the entry of a trap handler, whatever the process executes. -/
theorem user_preempted (h : Sandboxed zone vm.cpu vm.bus)
    (hmie : (vm.cpu.csrs csrMie).getLsbD irqTimer = true)
    (hahead : vm.bus.timer.mtime < vm.bus.timer.mtimecmp) (hosts : List HostTurn)
    (hlen : hosts.length = (vm.bus.timer.mtimecmp - vm.bus.timer.mtime).toNat + 1) :
    ∃ k, 0 < k ∧ k ≤ hosts.length ∧ UserRun vm (hosts.take k) ∧
      AtEntry ((hosts.take k).foldl mainLoop vm).cpu := by
  have hgap : 0 < (vm.bus.timer.mtimecmp - vm.bus.timer.mtime).toNat := by bv_omega
  have hlong : ¬ UserRun vm (hosts ++ [.quiet]) := by
    intro hall
    obtain ⟨hrun, hend, _⟩ := Past.along_append.mp hall
    rcases List.eq_nil_or_concat hosts with rfl | ⟨due, last, rfl⟩
    · simp at hlen
    rcases List.eq_nil_or_concat due with rfl | ⟨before, host, rfl⟩
    · simp only [List.concat_eq_append, List.nil_append, List.length_singleton] at hlen
      omega
    rw [List.concat_eq_append, List.concat_eq_append] at hrun hend hlen
    obtain ⟨hrun', hdue, _⟩ := Past.along_append.mp hrun
    rw [List.foldl_append, List.foldl_cons, List.foldl_nil] at hend
    refine deadline_interrupts h hmie hrun' ?_ hdue hend
    have hcount : (before ++ [host]).length =
        (vm.bus.timer.mtimecmp - vm.bus.timer.mtime).toNat := by simpa using hlen
    rw [hcount]
    bv_omega
  obtain ⟨k, hk, hrun, hno⟩ := Past.Along.leaves hlong
  have hlen' : k ≤ hosts.length := by simpa [Nat.lt_succ_iff] using hk
  have htake : (hosts ++ [HostTurn.quiet]).take k = hosts.take k :=
    List.take_append_of_le_length hlen'
  rw [htake] at hrun hno
  have hpos : 0 < k := by
    refine Nat.pos_of_ne_zero fun hz => ?_
    subst hz
    exact hno h.user
  exact ⟨k, hpos, hlen', hrun, ((Contained.start h).run hrun).leaves hno⟩

end

/-- The process loops, and its timer interrupts it. -/
theorem process_preempted : ∃ k, 0 < k ∧ k ≤ 6 ∧
    UserRun process ((List.replicate 6 HostTurn.quiet).take k) ∧
      AtEntry (((List.replicate 6 HostTurn.quiet).take k).foldl mainLoop process).cpu :=
  user_preempted process_sandboxed (by decide) (by decide) (List.replicate 6 HostTurn.quiet)
    (by decide)

end RiscvVm.Proofs
