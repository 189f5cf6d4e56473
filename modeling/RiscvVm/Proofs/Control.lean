import RiscvVm.Proofs.Step
import RiscvVm.Proofs.CsrWrite

namespace RiscvVm.Proofs

/-- What an instruction does to the CSRs and the privilege. All but traps, CSR
writes and trap returns leave both alone. -/
inductive Control (vm : Vm) (word : BitVec 32) (done : Vm) : Prop
  | plain (hcsrs : done.cpu.csrs = vm.cpu.csrs) (hpriv : done.cpu.priviledge = vm.cpu.priviledge)
      (htaken : done.cpu.trapTaken = vm.cpu.trapTaken)
  | trap (h : done =
      vm.raiseException (exceptionRecord vm word).1 (exceptionRecord vm word).2)
  | csr (addr : BitVec 12) (new : BitVec 64) (cpu : Cpu)
      (hreq : csrRequest vm word = some (addr, new))
      (hcan : csrCanWrite addr vm.cpu.priviledge = true) (hw : Writes vm.cpu addr new cpu)
      (hcsrs : done.cpu.csrs = cpu.csrs) (hpriv : done.cpu.priviledge = vm.cpu.priviledge)
      (htaken : done.cpu.trapTaken = vm.cpu.trapTaken)
  | sret (hword : IsSret word) (hpriv : vm.cpu.priviledge ≠ uMode)
      (h : done = sret vm (decodeI word))
  | mret (hword : IsMret word) (hpriv : vm.cpu.priviledge = mMode)
      (h : done = mret vm (decodeI word))

theorem executes_control {vm done : Vm} {word : BitVec 32} (h : Executes vm word done) :
    Control vm word done := by
  cases h with
  | nop => exact .plain rfl rfl rfl
  | write value => exact .plain (by simp) (by simp) (by simp)
  | branch target => exact .plain rfl rfl rfl
  | link target value => exact .plain (by simp) (by simp) (by simp)
  | trap hfault => exact .trap rfl
  | load width va p bus extend hacc ht => exact .plain (by simp) (by simp) (by simp)
  | store width va p value bus hacc ht => exact .plain (by simp) (by simp) (by simp)
  | amo width va p new old bus hwidth hacc ht => exact .plain (by simp) (by simp) (by simp)
  | lr width va p value bus hlr hwidth hacc ht => exact .plain (by simp) (by simp) (by simp)
  | sc width va p value bus hsc hwidth hacc ht hres => exact .plain (by simp) (by simp) (by simp)
  | scFailed width va p bus hsc hwidth hacc ht hres =>
    exact .plain (by simp) (by simp) (by simp)
  | csr addr new old cpu hreq hw =>
    obtain ⟨hcan, hwrites⟩ := csr_write_cases hw
    have he := writes_eq hwrites
    refine .csr addr new cpu hreq hcan hwrites (by simp) ?_ ?_
    · rw [write_reg_priviledge, he]
    · rw [write_reg_trap_taken, he]
  | sret hword hpriv => exact .sret hword hpriv rfl
  | mret hword hpriv => exact .mret hword hpriv rfl

/-- The `mstatus` that SRET leaves. -/
def sretStatus (mstatus : BitVec 64) : BitVec 64 :=
  setBit (setBit (setBit mstatus 1 (mstatus.getLsbD 5)) 5 true) 8 false

/-- The `mstatus` that MRET leaves. -/
def mretStatus (mstatus : BitVec 64) : BitVec 64 :=
  setBit (setBit (setBit (setBit mstatus 3 (mstatus.getLsbD 7)) 7 true) 11 false) 12 false

theorem sret_eq {vm : Vm} (word : BitVec 32) (hpriv : vm.cpu.priviledge ≠ uMode) :
    sret vm (decodeI word) =
      { vm with cpu :=
        { vm.cpu.setCsr csrMstatus (sretStatus (vm.cpu.csrs csrMstatus)) with
          priviledge := if (vm.cpu.csrs csrMstatus).getLsbD 8 then 1 else 0
          pc := vm.cpu.csrs csrSepc
          pcWritten := true } } := by
  unfold sret
  rw [if_neg hpriv]
  rfl

theorem mret_eq {vm : Vm} (word : BitVec 32) (hpriv : vm.cpu.priviledge = mMode) :
    mret vm (decodeI word) =
      { vm with cpu :=
        { vm.cpu.setCsr csrMstatus (mretStatus (vm.cpu.csrs csrMstatus)) with
          priviledge := mppOf (vm.cpu.csrs csrMstatus)
          pc := vm.cpu.csrs csrMepc
          pcWritten := true } } := by
  unfold mret
  rw [if_neg (not_not_intro hpriv)]
  rfl

/-- What has no data access leaves the bus alone. -/
theorem executes_bus {vm done : Vm} {word : BitVec 32} (h : Executes vm word done)
    (hno : dataAccess vm word = none) : done.bus = vm.bus := by
  cases h with
  | load _ _ _ _ _ hacc => rw [hno] at hacc; cases hacc
  | store _ _ _ _ _ hacc => rw [hno] at hacc; cases hacc
  | amo _ _ _ _ _ _ _ hacc => rw [hno] at hacc; cases hacc
  | lr _ _ _ _ _ _ _ hacc => rw [hno] at hacc; cases hacc
  | sc _ _ _ _ _ _ _ hacc => rw [hno] at hacc; cases hacc
  | scFailed _ _ _ _ _ _ hacc => rw [hno] at hacc; cases hacc
  | sret _ hpriv => rw [sret_eq word hpriv]
  | mret _ hpriv => rw [mret_eq word hpriv]
  | _ => rfl

theorem sret_status_get (mstatus : BitVec 64) (i : Nat) :
    (sretStatus mstatus).getLsbD i =
      if i = 8 then false
      else if i = 5 then true
      else if i = 1 then mstatus.getLsbD 5
      else mstatus.getLsbD i := by
  simp (disch := omega) only [sretStatus, set_bit_get]

theorem mret_status_get (mstatus : BitVec 64) (i : Nat) :
    (mretStatus mstatus).getLsbD i =
      if i = 12 then false
      else if i = 11 then false
      else if i = 7 then true
      else if i = 3 then mstatus.getLsbD 7
      else mstatus.getLsbD i := by
  simp (disch := omega) only [mretStatus, set_bit_get]

/-- The retirement of an instruction counts it and moves pc, nothing else. -/
theorem retire_cpu (vm : Vm) : (retire vm).cpu =
    if vm.cpu.trapTaken then vm.cpu
    else { vm.cpu.setCsr csrMinstret (vm.cpu.csrs csrMinstret + 1) with
      pc := if vm.cpu.pcWritten then vm.cpu.pc else vm.cpu.pc + 4 } := by
  obtain ⟨⟨regs, csrs, pc, priv, reservation, taken, written⟩, bus⟩ := vm
  cases taken <;> cases written <;> rfl

@[simp] theorem retire_regs (vm : Vm) : (retire vm).cpu.regs = vm.cpu.regs := by
  rw [retire_cpu]
  split <;> rfl

@[simp] theorem retire_priviledge (vm : Vm) :
    (retire vm).cpu.priviledge = vm.cpu.priviledge := by
  rw [retire_cpu]
  split <;> rfl

@[simp] theorem retire_taken (vm : Vm) : (retire vm).cpu.trapTaken = vm.cpu.trapTaken := by
  rw [retire_cpu]
  split <;> rfl

@[simp] theorem retire_reservation (vm : Vm) :
    (retire vm).cpu.reservation = vm.cpu.reservation := by
  rw [retire_cpu]
  split <;> rfl

theorem retire_csrs (vm : Vm) {a : BitVec 12} (ha : a ≠ csrMinstret) :
    (retire vm).cpu.csrs a = vm.cpu.csrs a := by
  rw [retire_cpu]
  split
  · rfl
  · exact if_neg ha

theorem retire_trapped {vm : Vm} (h : vm.cpu.trapTaken = true) : retire vm = vm := by
  have hcpu := retire_cpu vm
  rw [if_pos h] at hcpu
  exact congrArg (fun cpu => { cpu := cpu, bus := vm.bus : Vm }) hcpu

end RiscvVm.Proofs
