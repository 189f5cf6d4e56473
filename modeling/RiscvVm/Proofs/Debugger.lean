import RiscvVm.Debugger
import RiscvVm.Proofs.Reservation

namespace RiscvVm.Proofs
open Sv39

@[simp] theorem disassemble_line_vm (vm : Vm) (addr : BitVec 64) :
    (disassembleLine vm addr).1 = vm := rfl

/-- No breakpoint is at the pc of the first `n` turns. -/
def NoBreakpoint (breakpoints : Breakpoints) (vm : Vm) (n : Nat) : Prop :=
  ∀ k < n, isBreakpoint breakpoints (stepLoop k vm).cpu.pc = false

/-- `step` with a count up to `n` leaves what as many iterations of the main loop
without input do. -/
def StepsSame (vm : Vm) (n : Nat) : Prop :=
  ∀ argv steps, countArg argv[1]? = some steps → steps.toNat ≤ n →
    cmdStep vm argv = quietly steps.toNat vm

/-- So does `run` after up to `n` instructions, while it meets no breakpoint. -/
def RunsSame (vm : Vm) (n : Nat) : Prop :=
  ∀ breakpoints, ∀ m ≤ n, NoBreakpoint breakpoints vm m →
    cmdRun breakpoints m vm = quietly m vm

/-- The tick of an iteration moves `mtime` on from where the step has left it. -/
theorem main_loop_ne_step (vm : Vm) : mainLoop vm .quiet ≠ cpuStep vm := by
  intro h
  have htime : (cpuStep vm).bus.timer.mtime + 1 = (cpuStep vm).bus.timer.mtime :=
    congrArg (fun vm : Vm => vm.bus.timer.mtime) h
  simp at htime

theorem steps_same_iff (vm : Vm) (n : Nat) : StepsSame vm n ↔ n = 0 := by
  constructor
  · intro h
    rcases Nat.eq_zero_or_pos n with hz | hpos
    · exact hz
    · have hstep := h ["step"] 1 rfl hpos
      exact absurd hstep.symm (main_loop_ne_step vm)
  · rintro rfl argv steps hargs hle
    have hzero : steps.toNat = 0 := by omega
    rw [cmdStep, hargs]
    dsimp only
    rw [hzero]
    rfl

theorem runs_same_iff (vm : Vm) (n : Nat) : RunsSame vm n ↔ n = 0 := by
  constructor
  · intro h
    rcases Nat.eq_zero_or_pos n with hz | hpos
    · exact hz
    · have hrun := h noBreakpoints 1 hpos fun _ _ => rfl
      exact absurd hrun.symm (main_loop_ne_step vm)
  · rintro rfl breakpoints m hle _
    have hzero : m = 0 := by omega
    rw [hzero]
    rfl

/-- The debugger never calls `vm_tick`: neither way to drive the machine from it
is the main loop any longer once an instruction has been executed. -/
theorem debugger_same_iff (vm : Vm) (n : Nat) :
    (StepsSame vm n ↔ n = 0) ∧ (RunsSame vm n ↔ n = 0) :=
  ⟨steps_same_iff vm n, runs_same_iff vm n⟩

/-- `csrr x1, time` three times: the time the debugger shows stands still. -/
def timeProgram : Vm := vmInit (ramOf [(0, 0xC01020F3C01020F3), (8, 0xC01020F3)])

theorem debugger_stops_time :
    countArg ["step", "3"][1]? = some 3 ∧
      (cmdStep timeProgram ["step", "3"]).cpu.regs 1 = 0 ∧ (quietly 3 timeProgram).cpu.regs 1 = 2 ∧
      cmdStep timeProgram ["step", "3"] ≠ quietly 3 timeProgram ∧
      cmdRun noBreakpoints 3 timeProgram ≠ quietly 3 timeProgram := by
  have hstep : (cmdStep timeProgram ["step", "3"]).cpu.regs 1 = 0 := by decide
  have hrun : (cmdRun noBreakpoints 3 timeProgram).cpu.regs 1 = 0 := by decide
  have hloop : (quietly 3 timeProgram).cpu.regs 1 = 2 := by decide
  refine ⟨by decide, hstep, hloop, fun h => ?_, fun h => ?_⟩
  · rw [h, hloop] at hstep
    exact absurd hstep (by decide)
  · rw [h, hloop] at hrun
    exact absurd hrun (by decide)

/-- The commands that only look. -/
inductive Inspection
  | state (argv : List String)
  | mem (argv : List String)
  | disassemble (argv : List String)

def Inspection.run : Inspection → Vm → Vm
  | .state _, vm => cmdState vm
  | .mem argv, vm => cmdMem vm argv
  | .disassemble argv, vm => cmdDisassemble vm argv

theorem disassemble_loop_vm (lines : Nat) (vm : Vm) (addr : BitVec 64) :
    disassembleLoop lines vm addr = vm := by
  induction lines generalizing addr with
  | zero => rfl
  | succ lines ih => rw [disassembleLoop, disassemble_line_vm, ih]

theorem cmd_disassemble_vm (vm : Vm) (argv : List String) : cmdDisassemble vm argv = vm := by
  unfold cmdDisassemble
  split
  · rfl
  · split
    · rfl
    · exact disassemble_loop_vm _ _ _

theorem cmd_mem_vm (vm : Vm) (argv : List String) : cmdMem vm argv = vm := by
  unfold cmdMem
  split <;> rfl

/-- A translation leaves the bus as it was exactly when it finds the bits of its
entry set. -/
theorem translate_keeps_iff {cpu : Cpu} {bus bus' : Bus} {va p : BitVec 64} {acc : AccessType}
    (ht : translateAddress cpu bus va acc = (bus', .ok p)) :
    bus' = bus ↔ ∀ addr, ¬ MarksEntry cpu bus va acc addr := by
  rcases translate_cases cpu bus va acc with ⟨hoff, he⟩ | ⟨h8, hm, _, he⟩ | ⟨_, _, _, he⟩
  · rw [he] at ht
    cases ht
    refine iff_of_true rfl fun addr hmark => ?_
    rcases hoff with h0 | hpriv
    · exact absurd (h0.symm.trans hmark.paged.1) (by decide)
    · exact hmark.paged.2 hpriv
  · obtain ⟨level, addr, hw, _, _, _, hset⟩ := sv39_loop_word (he.symm.trans ht)
    constructor
    · rintro rfl addr' hmark
      obtain ⟨level', hw'⟩ := hmark.walk
      obtain ⟨_, rfl⟩ := hw.unique hw'
      exact hmark.clear hset.word.symm
    · intro hnone
      have hc : mark (accessOf acc) (vmBusRead64 bus addr) = vmBusRead64 bus addr := by
        by_cases hc : mark (accessOf acc) (vmBusRead64 bus addr) = vmBusRead64 bus addr
        · exact hc
        · exact absurd ⟨⟨h8, hm⟩, ⟨bus', p, ht⟩, ⟨level, hw⟩, hc⟩ (hnone addr)
      rw [hset.written, hc, leaf_write_same (walk_addr_aligned hw ⟨_, rfl⟩) (walk_leaf hw).2]
  · rw [he] at ht
    cases ht

/-- The CPU without `trap_taken`, which every step clears before it reads it. -/
def unflagged (cpu : Cpu) : Cpu := { cpu with trapTaken := false }

/-- What the guest has of the machine. -/
def guest (vm : Vm) : Vm := vm.onCpu unflagged

theorem step_guest (vm : Vm) : cpuStep (guest vm) = cpuStep vm := rfl

theorem step_loop_guest {a b : Vm} (h : guest a = guest b) (steps : Nat) :
    guest (stepLoop steps a) = guest (stepLoop steps b) := by
  cases steps with
  | zero => exact h
  | succ steps =>
    have hstep : cpuStep a = cpuStep b := by rw [← step_guest a, h, step_guest]
    exact congrArg (fun vm => guest (stepLoop steps vm)) hstep

/-- The CPU stands where a fetch fault at its pc would put it: in S, at a handler
that is the faulting address itself, with the record of that very fault. -/
structure Retrapped (cpu : Cpu) : Prop where
  priviledge : cpu.priviledge = sMode
  delegated : (cpu.csrs csrMedeleg).getLsbD 12 = true
  handler : cpu.csrs csrStvec &&& ~~~0x3#64 = cpu.pc
  sepc : cpu.csrs csrSepc = cpu.pc
  scause : cpu.csrs csrScause = excInstrPageFault
  stval : cpu.csrs csrStval = cpu.pc
  spp : (cpu.csrs csrMstatus).getLsbD 8 = true
  spie : (cpu.csrs csrMstatus).getLsbD 5 = false
  sie : (cpu.csrs csrMstatus).getLsbD 1 = false

theorem retrapped_status {cpu : Cpu} (h : Retrapped cpu) :
    sTrapStatus cpu = cpu.csrs csrMstatus := by
  apply BitVec.eq_of_getLsbD_eq
  intro i _
  rw [s_trap_status_get]
  split
  · rename_i hi
    rw [hi, h.sie]
  split
  · rename_i hi
    rw [hi, h.spie, h.sie]
  split
  · rename_i hi
    rw [hi, h.spp, h.priviledge]
    rfl
  · rfl

/-- When the entry of a fetch fault changes nothing that the guest has. -/
theorem fault_keeps_iff {cpu : Cpu} (hm : cpu.priviledge ≠ mMode) :
    unflagged (raiseException cpu excInstrPageFault cpu.pc) = unflagged cpu ↔
      Retrapped cpu := by
  rw [raise_exception_eq cpu (by decide)]
  constructor
  · intro h
    split at h
    · rename_i hd
      have hcsrs : ∀ a, (trapToS cpu excInstrPageFault cpu.pc).csrs a = cpu.csrs a := by
        intro a
        have hslot : (unflagged (trapToS cpu excInstrPageFault cpu.pc)).csrs a =
            (unflagged cpu).csrs a := by rw [h]
        exact hslot
      have hstatus : ∀ i, (sTrapStatus cpu).getLsbD i = (cpu.csrs csrMstatus).getLsbD i := by
        intro i
        rw [← hcsrs csrMstatus]
        rfl
      have hpriv : cpu.priviledge = sMode := (congrArg Cpu.priviledge h).symm
      have hsie : (cpu.csrs csrMstatus).getLsbD 1 = false := by
        rw [← hstatus, s_trap_status_get]
        rfl
      refine ⟨hpriv, hd.2, congrArg Cpu.pc h, (hcsrs csrSepc).symm, (hcsrs csrScause).symm,
        (hcsrs csrStval).symm, ?_, ?_, hsie⟩
      · rw [← hstatus, s_trap_status_get, hpriv]
        rfl
      · rw [← hstatus, s_trap_status_get]
        exact hsie
    · exact absurd (congrArg Cpu.priviledge h).symm hm
  · intro h
    have hd : Delegated cpu csrMedeleg excInstrPageFault.toNat := by
      refine ⟨?_, h.delegated⟩
      rw [h.priviledge]
      decide
    have hcsrs : (trapToS cpu excInstrPageFault cpu.pc).csrs = cpu.csrs := by
      funext a
      rw [trap_to_s_csrs]
      split
      · rename_i ha
        rw [ha, retrapped_status h]
      split
      · rename_i ha
        rw [ha, h.stval]
      split
      · rename_i ha
        rw [ha, h.scause]
      split
      · rename_i ha
        rw [ha, h.sepc]
      · rfl
    have hparts : unflagged (trapToS cpu excInstrPageFault cpu.pc) =
        { unflagged cpu with
          csrs := (trapToS cpu excInstrPageFault cpu.pc).csrs
          priviledge := sMode
          pc := cpu.csrs csrStvec &&& ~~~0x3#64 } := rfl
    rw [if_pos hd, hparts, hcsrs, h.handler, ← h.priviledge]
    rfl

/-- What `state` needs to find: a pc whose entry is marked already, or one that
has faulted already in the same way. -/
def Undisturbing (vm : Vm) : Prop :=
  match fetchedWord vm with
  | some _ => ∀ addr, ¬ MarksEntry vm.cpu vm.bus vm.cpu.pc .fetch addr
  | none => Retrapped vm.cpu

theorem fetch_fault_priviledge {vm : Vm} {bus : Bus} {e : BitVec 64}
    (ht : translateAddress vm.cpu vm.bus vm.cpu.pc .fetch = (bus, .error e)) :
    vm.cpu.priviledge ≠ mMode := by
  intro hm
  have heff : effectivePriviledge vm.cpu .fetch = mMode := by
    unfold effectivePriviledge
    rw [hm]
    exact if_neg fun h => h.2.1 rfl
  rw [translate_machine heff] at ht
  cases ht

theorem cmd_state_iff (vm : Vm) : guest (cmdState vm) = guest vm ↔ Undisturbing vm := by
  have hstate : cmdState vm = (cpuFetch vm).1 := rfl
  rw [hstate]
  unfold cpuFetch Undisturbing fetchedWord
  rcases ht : translateAddress vm.cpu vm.bus vm.cpu.pc .fetch with ⟨bus, e | p⟩
  · obtain ⟨rfl, rfl⟩ := translate_error ht
    dsimp only
    rw [← fault_keeps_iff (fetch_fault_priviledge ht)]
    constructor
    · intro h
      exact congrArg Vm.cpu h
    · intro h
      exact congrArg (fun cpu => { vm with cpu := cpu }) h
  · dsimp only
    rw [← translate_keeps_iff ht]
    constructor
    · intro h
      exact congrArg Vm.bus h
    · rintro rfl
      rfl

/-- When an inspection of this machine is one: always, but for `state`. -/
def Harmless (vm : Vm) : Inspection → Prop
  | .state _ => Undisturbing vm
  | .mem _ => True
  | .disassemble _ => True

theorem inspection_iff (vm : Vm) (i : Inspection) :
    guest (i.run vm) = guest vm ↔ Harmless vm i := by
  cases i with
  | state argv => exact cmd_state_iff vm
  | mem argv => exact iff_of_true (congrArg guest (cmd_mem_vm vm argv)) trivial
  | disassemble argv => exact iff_of_true (congrArg guest (cmd_disassemble_vm vm argv)) trivial

/-- What the user does at the prompt: a step, or a look at the machine. -/
inductive Action
  | step
  | inspect (i : Inspection)

def session : List Action → Vm → Vm
  | [], vm => vm
  | .step :: rest, vm => session rest (cpuStep vm)
  | .inspect i :: rest, vm => session rest (i.run vm)

def stepsOf : List Action → Nat
  | [] => 0
  | .step :: rest => stepsOf rest + 1
  | .inspect _ :: rest => stepsOf rest

/-- Every inspection of the session finds the machine in a state it leaves
alone. -/
def AllHarmless : List Action → Vm → Prop
  | [], _ => True
  | .step :: rest, vm => AllHarmless rest (cpuStep vm)
  | .inspect i :: rest, vm => Harmless vm i ∧ AllHarmless rest (i.run vm)

theorem session_steps {actions : List Action} {vm : Vm} (h : AllHarmless actions vm) :
    guest (session actions vm) = guest (stepLoop (stepsOf actions) vm) := by
  induction actions generalizing vm with
  | nil => rfl
  | cons action rest ih =>
    cases action with
    | step => exact ih h
    | inspect i =>
      obtain ⟨hi, hrest⟩ := h
      have hsame := (inspection_iff vm i).mpr hi
      rw [session, stepsOf, ih hrest]
      exact step_loop_guest hsame _

/-- `mem` and `disassemble` leave the guest alone, whatever they are given.
`state` does so exactly when the fetch it makes has nothing to mark and no trap
to enter, and inspections that do can be put anywhere among the steps. -/
theorem inspection_harmless_iff (vm : Vm) :
    (∀ i : Inspection, guest (i.run vm) = guest vm ↔ Harmless vm i) ∧
      ∀ actions, AllHarmless actions vm →
        guest (session actions vm) = guest (stepLoop (stepsOf actions) vm) :=
  ⟨inspection_iff vm, fun _ => session_steps⟩

/-- A program that turns Sv39 on with an empty table and returns to U at 0. -/
def unmappedProgram : Memory :=
  ramOf [(0, 0x0182B30300000297), (8, 0x3000107318031073), (16, 0x30200073),
    (24, 0x8000000000080001)]

/-- `state` takes the guest into its trap handler. -/
theorem state_enters_trap :
    Reachable (quietly 5 (vmInit unmappedProgram)) ∧
      (quietly 5 (vmInit unmappedProgram)).cpu.pc = 0 ∧
      ((Inspection.state ["state"]).run (quietly 5 (vmInit unmappedProgram))).cpu.pc = ramBase ∧
      guest ((Inspection.state ["state"]).run (quietly 5 (vmInit unmappedProgram))) ≠
        guest (quietly 5 (vmInit unmappedProgram)) := by
  have hpc : (quietly 5 (vmInit unmappedProgram)).cpu.pc = 0 := by decide +kernel
  have htrap : ((Inspection.state ["state"]).run (quietly 5 (vmInit unmappedProgram))).cpu.pc =
      ramBase := by decide +kernel
  refine ⟨quietly_reachable 5 (.init _), hpc, htrap, fun h => ?_⟩
  have hsame : ((Inspection.state ["state"]).run (quietly 5 (vmInit unmappedProgram))).cpu.pc =
      (quietly 5 (vmInit unmappedProgram)).cpu.pc := by
    have hguest (vm : Vm) : (guest vm).cpu.pc = vm.cpu.pc := rfl
    rw [← hguest, h, hguest]
  rw [htrap, hpc] at hsame
  exact absurd hsame (by decide)

end RiscvVm.Proofs
