import RiscvVm.Proofs.Storage

namespace RiscvVm.Proofs
open Bits

/-- A step changes no bit of mip but those of the supervisor's interrupts. -/
theorem processed_mip (vm : Vm) :
    EqOff supervisorInterruptMask ((processed vm).cpu.csrs csrMip) (vm.cpu.csrs csrMip) ∧
      EqOff supervisorInterruptMask ((cpuStep vm).cpu.csrs csrMip) (vm.cpu.csrs csrMip) := by
  have hslot : csrMip ∉ touched := by decide
  have hinv := slot_invariant (a := csrMip)
    (Q := fun mip => EqOff supervisorInterruptMask mip (vm.cpu.csrs csrMip)) hslot
  have hstart := EqOff.refl supervisorInterruptMask (vm.cpu.csrs csrMip)
  have hkept := slot_kept (Q := fun mip => EqOff supervisorInterruptMask mip (vm.cpu.csrs csrMip))
    vm hslot hstart fun _ hw => hw.mip
  exact ⟨hinv.instruction hstart hkept, hinv.step hstart hkept⟩

/-- The interrupts of M: software, timer and external. -/
def machineCauses : List Nat := [3, 7, 11]

theorem machine_cause_mask {cause : Nat} (h : cause ∈ machineCauses) :
    cause < 64 ∧ supervisorInterruptMask.getLsbD cause = false := by
  have hall : machineCauses.all
      (fun c => c < 64 && !supervisorInterruptMask.getLsbD c) = true := by decide
  simpa using List.all_eq_true.mp hall cause h

/-- An interrupt of M that a step takes was pending before the step. -/
theorem taken_pending {vm : Vm} {cause : Nat} (h : interruptTaken vm = some cause)
    (hm : cause ∈ machineCauses) : (vm.cpu.csrs csrMip).getLsbD cause = true := by
  obtain ⟨hlt, hmask⟩ := machine_cause_mask hm
  have hsel : selected (processed vm).cpu = some cause := by
    unfold interruptTaken at h
    split at h
    · cases h
    · exact h
  have htake := (selected_mem hsel).2
  unfold takeable at htake
  simp only [Bool.and_eq_true, BitVec.getLsbD_and] at htake
  rw [← (processed_mip vm).1.bit hlt hmask]
  exact htake.1.1

/-- The tick makes the two bits of mip show the timer. -/
theorem tick_pending (vm : Vm) :
    ((vmTick vm).cpu.csrs csrMip).getLsbD irqTimer =
        decide ((vmTick vm).bus.timer.mtime ≥ (vmTick vm).bus.timer.mtimecmp) ∧
      ((vmTick vm).cpu.csrs csrMip).getLsbD irqSoftware = (vmTick vm).bus.timer.msip.getLsbD 0 := by
  unfold vmTick
  dsimp only
  rw [set_pending_eq, set_pending_eq]
  simp only [set_csr_csrs, if_true]
  constructor
  · rw [set_bit_get _ (by decide), if_pos rfl]
  · rw [set_bit_get _ (by decide), if_neg (by decide), set_bit_get _ (by decide), if_pos rfl]

theorem host_cpu (vm : Vm) (host : HostTurn) : (hostInput vm host).cpu = vm.cpu := by
  cases host <;> rfl

/-- Interrupts of M come from the devices only: no step can change their bits
of mip, the timer and the software interrupt are taken only if the last tick
saw the timer ask for them, never before the first tick, and there is no
external interrupt. -/
theorem no_spurious_device_interrupts :
    (∀ vm, ∀ cause ∈ machineCauses, ((cpuStep vm).cpu.csrs csrMip).getLsbD cause =
      (vm.cpu.csrs csrMip).getLsbD cause) ∧
    (∀ prev host, Reachable prev →
      (interruptTaken (mainLoop prev host) = some irqTimer →
        (vmTick (cpuStep prev)).bus.timer.mtime ≥ (vmTick (cpuStep prev)).bus.timer.mtimecmp) ∧
      (interruptTaken (mainLoop prev host) = some irqSoftware →
        (vmTick (cpuStep prev)).bus.timer.msip.getLsbD 0 = true)) ∧
    (∀ ram, ∀ cause ∈ machineCauses, interruptTaken (vmInit ram) ≠ some cause ∧
      interruptTaken (vmBoot ram) ≠ some cause) ∧
    ∀ vm, Reachable vm → interruptTaken vm ≠ some 11 := by
  refine ⟨fun vm cause hm => ?_, fun prev host _ => ⟨fun h => ?_, fun h => ?_⟩,
    fun ram cause hm => ⟨fun h => ?_, fun h => ?_⟩, fun vm hr h => ?_⟩
  · obtain ⟨hlt, hmask⟩ := machine_cause_mask hm
    exact (processed_mip vm).2.bit hlt hmask
  · have hp := taken_pending h (by decide)
    unfold mainLoop at hp
    rw [host_cpu, (tick_pending _).1] at hp
    exact of_decide_eq_true hp
  · have hp := taken_pending h (by decide)
    unfold mainLoop at hp
    rw [host_cpu, (tick_pending _).2] at hp
    exact hp
  · have hp : (0#64).getLsbD cause = true := taken_pending h hm
    simp at hp
  · have hp : (0#64).getLsbD cause = true := taken_pending h hm
    simp at hp
  · have hp := taken_pending h (by decide)
    have hz : (vm.cpu.csrs csrMip).getLsbD 11 = (resetCsrs csrMip).getLsbD 11 :=
      (reachable_stored hr csrMip).bit (by omega) (by decide)
    rw [hz] at hp
    exact absurd hp (by decide)

end RiscvVm.Proofs
