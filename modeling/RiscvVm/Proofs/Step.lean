import RiscvVm.Proofs.Execution
import RiscvVm.Proofs.Traps

namespace RiscvVm.Proofs

/-- The machine as the instruction finds it, with the bus its fetch has left. -/
def fetched (vm : Vm) (bus : Bus) : Vm := { cpu := beginStep vm.cpu, bus := bus }

@[simp] theorem fetched_cpu (vm : Vm) (bus : Bus) : (fetched vm bus).cpu = beginStep vm.cpu := rfl

/-- The word the step fetches, when its fetch translates. -/
def fetchedWord (vm : Vm) : Option (BitVec 32) :=
  match translateAddress vm.cpu vm.bus vm.cpu.pc .fetch with
  | (_, .error _) => none
  | (bus, .ok p) => some (vmBusRead32 bus p)

def retire (vm : Vm) : Vm := (vm.onCpu incrementPc).onCpu countRetired

/-- The machine at the end of the instruction or exception processing of a
step, before the step looks for interrupts. -/
def processed (vm : Vm) : Vm :=
  match cpuFetch (vm.onCpu beginStep) with
  | (vm, none) => vm
  | (vm, some word) => retire (dispatchInstruction vm word)

/-- The interrupt check and what comes after it. -/
def finish (vm : Vm) : Vm :=
  vm.onCpu fun cpu => { cpuCheckInterrupts cpu with pcWritten := false }

/-- What a translation looks at in the CPU. -/
theorem translate_congr (cpu cpu' : Cpu) (hm : cpu'.csrs csrMstatus = cpu.csrs csrMstatus)
    (hs : cpu'.csrs csrSatp = cpu.csrs csrSatp) (hp : cpu'.priviledge = cpu.priviledge)
    (bus : Bus) (va : BitVec 64) (acc : AccessType) :
    translateAddress cpu' bus va acc = translateAddress cpu bus va acc := by
  have heff : effectivePriviledge cpu' acc = effectivePriviledge cpu acc := by
    unfold effectivePriviledge
    rw [hm, hp]
  have hmode : satpMode cpu' = satpMode cpu := by
    unfold satpMode
    rw [hs]
  have hentry : ∀ priv i pte, walkEntry cpu' va acc priv i pte = walkEntry cpu va acc priv i pte := by
    intro priv i pte
    unfold walkEntry checkPriviledge
    rw [hm]
  have hloop : ∀ priv i table,
      sv39Loop cpu' bus va acc priv i table = sv39Loop cpu bus va acc priv i table := by
    intro priv i
    induction i with
    | zero =>
      intro table
      unfold sv39Loop
      dsimp only
      rw [hentry]
    | succ i ih =>
      intro table
      unfold sv39Loop
      dsimp only
      rw [hentry]
      simp only [ih]
  unfold translateAddress sv39
  dsimp only
  rw [heff, hmode, hs, hloop]

theorem translate_begin (cpu : Cpu) (bus : Bus) (va : BitVec 64) (acc : AccessType) :
    translateAddress (beginStep cpu) bus va acc = translateAddress cpu bus va acc :=
  translate_congr cpu (beginStep cpu) rfl rfl rfl bus va acc

theorem begin_pc (cpu : Cpu) : (beginStep cpu).pc = cpu.pc := rfl

theorem begin_priviledge (cpu : Cpu) : (beginStep cpu).priviledge = cpu.priviledge := rfl

theorem begin_csrs (cpu : Cpu) {a : BitVec 12} (ha : a ≠ csrMcycle) :
    (beginStep cpu).csrs a = cpu.csrs a := if_neg ha

/-- A step faults in its fetch, or fetches a word and executes it. -/
theorem fetch_cases (vm : Vm) :
    (translateAddress vm.cpu vm.bus vm.cpu.pc .fetch = (vm.bus, .error excInstrPageFault) ∧
      cpuFetch (vm.onCpu beginStep) =
        ((fetched vm vm.bus).raiseException excInstrPageFault vm.cpu.pc, none)) ∨
    ∃ bus p, translateAddress vm.cpu vm.bus vm.cpu.pc .fetch = (bus, .ok p) ∧
      cpuFetch (vm.onCpu beginStep) = (fetched vm bus, some (vmBusRead32 bus p)) := by
  unfold cpuFetch
  rw [on_cpu_cpu, on_cpu_bus, begin_pc, translate_begin]
  rcases ht : translateAddress vm.cpu vm.bus vm.cpu.pc .fetch with ⟨bus, e | p⟩
  · obtain ⟨rfl, rfl⟩ := translate_error ht
    exact Or.inl ⟨rfl, rfl⟩
  · exact Or.inr ⟨bus, p, rfl, rfl⟩

theorem step_of_fetch {vm : Vm} {bus : Bus} {p : BitVec 64}
    (h : translateAddress vm.cpu vm.bus vm.cpu.pc .fetch = (bus, .ok p)) :
    processed vm = retire (dispatchInstruction (fetched vm bus) (vmBusRead32 bus p)) ∧
      cpuStep vm = finish (processed vm) := by
  rcases fetch_cases vm with ⟨ht, _⟩ | ⟨bus', p', ht, hf⟩
  · rw [h] at ht
    cases ht
  · rw [h] at ht
    cases ht
    unfold processed cpuStep
    rw [hf]
    exact ⟨rfl, rfl⟩

/-- The whole step, by the outcome of its fetch. -/
theorem step_cases (vm : Vm) :
    (translateAddress vm.cpu vm.bus vm.cpu.pc .fetch = (vm.bus, .error excInstrPageFault) ∧
      processed vm = (fetched vm vm.bus).raiseException excInstrPageFault vm.cpu.pc ∧
      cpuStep vm = processed vm) ∨
    ∃ bus p done, translateAddress vm.cpu vm.bus vm.cpu.pc .fetch = (bus, .ok p) ∧
      Executes (fetched vm bus) (vmBusRead32 bus p) done ∧
      processed vm = retire done ∧ cpuStep vm = finish (processed vm) := by
  rcases fetch_cases vm with ⟨ht, hf⟩ | ⟨bus, p, ht, _⟩
  · unfold processed cpuStep
    rw [hf]
    exact Or.inl ⟨ht, rfl, rfl⟩
  · obtain ⟨hp, hs⟩ := step_of_fetch ht
    exact Or.inr ⟨bus, p, _, ht, dispatch_executes _ _, hp, hs⟩

/-- A step whose fetch has faulted ends there. -/
theorem step_of_fault {vm : Vm} (h : fetchedWord vm = none) :
    cpuStep vm = processed vm ∧
      processed vm = (fetched vm vm.bus).raiseException excInstrPageFault vm.cpu.pc := by
  rcases step_cases vm with ⟨_, hp, hs⟩ | ⟨bus, p, _, ht, _⟩
  · exact ⟨hs, hp⟩
  · rw [fetchedWord, ht] at h
    cases h

theorem fetched_word_some {vm : Vm} {word : BitVec 32} (h : fetchedWord vm = some word) :
    ∃ bus p, translateAddress vm.cpu vm.bus vm.cpu.pc .fetch = (bus, .ok p) ∧
      vmBusRead32 bus p = word := by
  unfold fetchedWord at h
  rcases ht : translateAddress vm.cpu vm.bus vm.cpu.pc .fetch with ⟨bus, e | p⟩
  · rw [ht] at h
    cases h
  · rw [ht] at h
    exact ⟨bus, p, rfl, Option.some.inj h⟩

/-- A step that fetches a word ends with the interrupt check. -/
theorem step_of_word {vm : Vm} {word : BitVec 32} (h : fetchedWord vm = some word) :
    cpuStep vm = finish (processed vm) := by
  obtain ⟨bus, p, ht, _⟩ := fetched_word_some h
  exact (step_of_fetch ht).2

end RiscvVm.Proofs
