import RiscvVm.Machine
import RiscvVm.Proofs.Control

namespace RiscvVm.Proofs

/-- The step executes a word of this kind. -/
def ExecutesWord (vm : Vm) (kind : BitVec 32 → Prop) : Prop :=
  ∃ word, fetchedWord vm = some word ∧ kind word

/-- The step executes an SRET, which is illegal in U. -/
def Srets (vm : Vm) : Prop := ExecutesWord vm IsSret ∧ vm.cpu.priviledge ≠ uMode

/-- The step executes an MRET, which is legal in M only. -/
def Mrets (vm : Vm) : Prop := ExecutesWord vm IsMret ∧ vm.cpu.priviledge = mMode

/-- The step asks for this value to be written to this CSR, and may. -/
def WritesCsr (vm : Vm) (addr : BitVec 12) (value : BitVec 64) : Prop :=
  ∃ bus p, translateAddress vm.cpu vm.bus vm.cpu.pc .fetch = (bus, .ok p) ∧
    csrRequest (fetched vm bus) (vmBusRead32 bus p) = some (addr, value) ∧
    csrCanWrite addr vm.cpu.priviledge = true

section
variable {vm : Vm} {word : BitVec 32} {addr : BitVec 12} {value : BitVec 64}

/-- What a word that asks for a CSR write looks like. -/
theorem csr_request_system (h : csrRequest vm word = some (addr, value)) :
    Opcode.ofRaw (opcodeOf word) = some .system ∧ funct3Of word ≠ 0 ∧ funct3Of word ≠ 4 := by
  unfold csrRequest at h
  dsimp only at h
  by_cases hop : Opcode.ofRaw (opcodeOf word) = some .system
  · rw [if_neg (not_not_intro hop)] at h
    refine ⟨hop, fun h0 => ?_, fun h4 => ?_⟩
    · rw [h0] at h
      cases h
    · rw [h4] at h
      cases h
  · rw [if_pos hop] at h
    cases h

/-- A word that asks for a CSR write names the CSR and comes to that write. -/
theorem csr_request_dispatch (h : csrRequest vm word = some (addr, value)) :
    field word 20 12 = addr ∧
      ∃ old, dispatchInstruction vm word = finishCsrWrite vm (decodeI word) addr value old := by
  obtain ⟨hop, h0, h4⟩ := csr_request_system h
  have hout := csr_word_outcome vm hop h0 h4
  rw [dispatch_system_word hop]
  generalize dispatchSystem vm (decodeI word) = done at hout ⊢
  cases hout with
  | refused hread hreq =>
    rw [h] at hreq
    cases hreq
  | read old hread hreq =>
    rw [h] at hreq
    cases hreq
  | write new old hreq =>
    rw [h] at hreq
    cases hreq
    exact ⟨rfl, old, rfl⟩

/-- The CSRs after a step that writes one. -/
theorem writes_csr_done (h : WritesCsr vm addr value) (himp : (csrTable addr).implemented = true) :
    ∃ cpu, Writes (beginStep vm.cpu) addr value cpu ∧
      ∀ a ≠ csrMinstret, (processed vm).cpu.csrs a = cpu.csrs a := by
  obtain ⟨bus, p, ht, hreq, hcan⟩ := h
  obtain ⟨_, old, hd⟩ := csr_request_dispatch hreq
  obtain ⟨hp, _⟩ := step_of_fetch ht
  obtain ⟨cpu, hw⟩ := csr_write_some (fetched vm bus).cpu value himp hcan
  refine ⟨cpu, (csr_write_cases hw).2, fun a ha => ?_⟩
  rw [hp, retire_csrs _ ha, hd, finishCsrWrite, hw]
  exact congrFun (write_reg_csrs _ _ _) a

end
/-- SRET, as far as CSRs and privilege go. -/
def sretCpu (cpu : Cpu) : Cpu :=
  { cpu.setCsr csrMstatus (sretStatus (cpu.csrs csrMstatus)) with
    priviledge := if (cpu.csrs csrMstatus).getLsbD 8 then 1 else 0 }

/-- MRET, as far as CSRs and privilege go. -/
def mretCpu (cpu : Cpu) : Cpu :=
  { cpu.setCsr csrMstatus (mretStatus (cpu.csrs csrMstatus)) with
    priviledge := mppOf (cpu.csrs csrMstatus) }

/-- A property of the CSRs and the privilege that neither the counters nor the
trap entries can break. -/
structure ControlInvariant (P : Cpu → Prop) : Prop where
  congr : ∀ {cpu cpu' : Cpu}, P cpu → cpu'.csrs = cpu.csrs → cpu'.priviledge = cpu.priviledge →
    P cpu'
  count : ∀ {cpu : Cpu} {a : BitVec 12} {value : BitVec 64}, P cpu →
    a = csrMcycle ∨ a = csrMinstret → P (cpu.setCsr a value)
  toS : ∀ {cpu : Cpu} {cause tvalue : BitVec 64}, P cpu → cpu.priviledge < mMode →
    P (trapToS cpu cause tvalue)
  toM : ∀ {cpu : Cpu} {cause tvalue : BitVec 64}, P cpu → P (trapToM cpu cause tvalue)

/-- If the step is a CSR instruction or a trap return, it keeps the property. -/
structure KeptBy (P : Cpu → Prop) (vm : Vm) : Prop where
  csr : ∀ {addr : BitVec 12} {value : BitVec 64} {cpu : Cpu}, WritesCsr vm addr value →
    Writes (beginStep vm.cpu) addr value cpu → P cpu
  sret : Srets vm → P (sretCpu (beginStep vm.cpu))
  mret : Mrets vm → P (mretCpu (beginStep vm.cpu))

/-- The tick sets or clears one bit of mip. -/
theorem set_pending_eq (cpu : Cpu) (cause : Nat) (pending : Bool) :
    cpuSetInterruptPending cpu cause pending =
      cpu.setCsr csrMip (setBit (cpu.csrs csrMip) cause pending) := by
  cases pending <;> rfl

/-- The tick changes no other bit than those two. -/
theorem pending_off {mip mask : BitVec 64} {cause : Nat} {pending : Bool}
    (hc : cause = irqSoftware ∨ cause = irqTimer)
    (hsoftware : (1#64 <<< irqSoftware) &&& mask = 1#64 <<< irqSoftware)
    (htimer : (1#64 <<< irqTimer) &&& mask = 1#64 <<< irqTimer) :
    Bits.EqOff mask (setBit mip cause pending) mip := by
  have hlt : cause < 64 := by
    rcases hc with rfl | rfl <;> decide
  have hbit : Bits.EqOff (1#64 <<< cause) (setBit mip cause pending) mip := by
    refine Bits.eqOff_iff.mpr fun i hi hz => ?_
    rw [Bits.getLsbD_one_shift cause i hlt, decide_eq_false_iff_not] at hz
    rw [set_bit_get _ hlt, if_neg hz]
  rcases hc with rfl | rfl
  · exact hbit.mono hsoftware
  · exact hbit.mono htimer

section
variable {P : Cpu → Prop} {cpu : Cpu} {vm : Vm}

theorem ControlInvariant.begin (h : ControlInvariant P) (hp : P cpu) : P (beginStep cpu) := by
  have hcount : P (cpu.setCsr csrMcycle (cpu.csrs csrMcycle + 1)) := h.count hp (Or.inl rfl)
  exact h.congr hcount rfl rfl

theorem ControlInvariant.exception (h : ControlInvariant P) (hp : P cpu)
    (cause tvalue : BitVec 64) : P (raiseException cpu cause tvalue) := by
  unfold raiseException
  dsimp only
  split
  · rename_i hlow
    exact h.toS hp hlow.1
  · exact h.toM hp

theorem ControlInvariant.interrupts (h : ControlInvariant P) (hp : P cpu) :
    P (cpuCheckInterrupts cpu) := by
  rw [check_interrupts_eq]
  cases selected cpu with
  | none => exact hp
  | some n =>
    dsimp only
    unfold raiseInterrupt
    dsimp only
    split
    · rename_i hlow
      exact h.toS hp hlow.1
    · exact h.toM hp

theorem ControlInvariant.retire (h : ControlInvariant P) (hp : P vm.cpu) :
    P (retire vm).cpu := by
  rw [retire_cpu]
  split
  · exact hp
  · have hcount : P (vm.cpu.setCsr csrMinstret (vm.cpu.csrs csrMinstret + 1)) :=
      h.count hp (Or.inr rfl)
    exact h.congr hcount rfl rfl

/-- An instruction keeps the property if it is kept by CSR writes and by trap
returns. -/
theorem ControlInvariant.instruction (h : ControlInvariant P) (hp : P vm.cpu)
    (hkept : KeptBy P vm) : P (processed vm).cpu := by
  rcases step_cases vm with ⟨_, hf, _⟩ | ⟨bus, p, done, ht, hx, hd, _⟩
  · rw [hf]
    exact h.exception (h.begin hp) _ _
  · have hword : fetchedWord vm = some (vmBusRead32 bus p) := by rw [fetchedWord, ht]
    rw [hd]
    apply h.retire
    cases executes_control hx with
    | plain hcsrs hpriv htaken => exact h.congr (h.begin hp) hcsrs hpriv
    | trap he =>
      rw [he]
      exact h.exception (h.begin hp) _ _
    | csr addr new cpu hreq hcan hw hcsrs hpriv htaken =>
      have hcpu := hkept.csr ⟨bus, p, ht, hreq, hcan⟩ hw
      refine h.congr hcpu hcsrs ?_
      rw [hpriv, writes_eq hw]
    | sret hs hpriv he =>
      rw [he, sret_eq _ hpriv]
      exact h.congr (hkept.sret ⟨⟨_, hword, hs⟩, hpriv⟩) rfl rfl
    | mret hm hpriv he =>
      rw [he, mret_eq _ hpriv]
      exact h.congr (hkept.mret ⟨⟨_, hword, hm⟩, hpriv⟩) rfl rfl

theorem ControlInvariant.finish (h : ControlInvariant P) (hp : P (processed vm).cpu) :
    P (cpuStep vm).cpu := by
  rcases step_cases vm with ⟨_, _, hs⟩ | ⟨_, _, _, _, _, _, hs⟩
  · rwa [hs]
  · rw [hs]
    exact h.congr (h.interrupts hp) rfl rfl

theorem ControlInvariant.step (h : ControlInvariant P) (hp : P vm.cpu) (hkept : KeptBy P vm) :
    P (cpuStep vm).cpu := h.finish (h.instruction hp hkept)

/-- The tick and the host leave the CPU alone but for two bits of mip. -/
theorem tick_keeps (htick : ∀ {cpu : Cpu} {cause : Nat} {pending : Bool}, P cpu →
      cause = irqSoftware ∨ cause = irqTimer → P (cpuSetInterruptPending cpu cause pending))
    (hp : P vm.cpu) (host : HostTurn) : P (hostInput (vmTick vm) host).cpu := by
  have hp' : P (vmTick vm).cpu := htick (htick hp (Or.inl rfl)) (Or.inr rfl)
  cases host with
  | quiet => exact hp'
  | poll input => exact hp'

end

/-- The CSRs that counting, trap entries and trap returns write. -/
def touched : List (BitVec 12) :=
  [csrMcycle, csrMinstret, csrMstatus, csrSepc, csrScause, csrStval, csrMepc, csrMcause, csrMtval]

section
variable {Q : BitVec 64 → Prop} {a : BitVec 12}

/-- What is said of any other CSR can change by a CSR write only. -/
theorem slot_invariant (ha : a ∉ touched) : ControlInvariant fun cpu => Q (cpu.csrs a) := by
  simp only [touched, List.mem_cons, List.not_mem_nil, or_false, not_or] at ha
  obtain ⟨hcycle, hinstret, hstatus, hsepc, hscause, hstval, hmepc, hmcause, hmtval⟩ := ha
  refine ⟨fun h hcsrs _ => ?_, fun h hc => ?_, fun h _ => ?_, fun h => ?_⟩
  · rwa [hcsrs]
  · rcases hc with rfl | rfl
    · rwa [set_csr_csrs, if_neg hcycle]
    · rwa [set_csr_csrs, if_neg hinstret]
  · rwa [trap_to_s_csrs, if_neg hstatus, if_neg hstval, if_neg hscause, if_neg hsepc]
  · rwa [trap_to_m_csrs, if_neg hstatus, if_neg hmtval, if_neg hmcause, if_neg hmepc]

theorem slot_kept (vm : Vm) (ha : a ∉ touched) (h : Q (vm.cpu.csrs a))
    (hcsr : ∀ {addr : BitVec 12} {value : BitVec 64} {cpu : Cpu}, WritesCsr vm addr value →
      Writes (beginStep vm.cpu) addr value cpu → Q (cpu.csrs a)) :
    KeptBy (fun cpu => Q (cpu.csrs a)) vm := by
  have hbegin : Q ((beginStep vm.cpu).csrs a) := (slot_invariant ha).begin h
  have hstatus : a ≠ csrMstatus := by
    rintro rfl
    exact ha (by decide)
  refine ⟨hcsr, fun _ => ?_, fun _ => ?_⟩
  · have hsame : (sretCpu (beginStep vm.cpu)).csrs a = (beginStep vm.cpu).csrs a := if_neg hstatus
    rwa [hsame]
  · have hsame : (mretCpu (beginStep vm.cpu)).csrs a = (beginStep vm.cpu).csrs a := if_neg hstatus
    rwa [hsame]

end

/-- States reached by iterations of the main loop from steps that all meet a
condition. -/
inductive GuardedRun (ok : Vm → Prop) : Vm → Prop
  | init (ram : Memory) : GuardedRun ok (vmInit ram)
  | boot (ram : Memory) : GuardedRun ok (vmBoot ram)
  | iterate (vm : Vm) (host : HostTurn) (h : GuardedRun ok vm) (hok : ok vm) :
      GuardedRun ok (mainLoop vm host)

theorem guarded_of_reachable {vm : Vm} (h : Reachable vm) : GuardedRun (fun _ => True) vm := by
  induction h with
  | init ram => exact .init ram
  | boot ram => exact .boot ram
  | iterate vm host _ ih => exact .iterate vm host ih trivial

/-- A property that holds at reset, and that every step of the run keeps, holds
in every state of the run. -/
theorem ControlInvariant.run {P : Cpu → Prop} {ok : Vm → Prop} (h : ControlInvariant P)
    (hreset : P (cpuReset cpuInit memBase))
    (htick : ∀ {cpu : Cpu} {cause : Nat} {pending : Bool}, P cpu →
      cause = irqSoftware ∨ cause = irqTimer → P (cpuSetInterruptPending cpu cause pending))
    (hkept : ∀ {vm : Vm}, P vm.cpu → ok vm → KeptBy P vm) {vm : Vm} (hrun : GuardedRun ok vm) :
    P vm.cpu := by
  induction hrun with
  | init ram => exact hreset
  | boot ram => exact h.congr hreset rfl rfl
  | iterate vm host _ hok ih => exact tick_keeps htick (h.step ih (hkept ih hok)) host

/-- The machine after some iterations of the main loop without input. -/
def quietly (n : Nat) (vm : Vm) : Vm := Nat.repeat (mainLoop · .quiet) n vm

theorem quietly_reachable (n : Nat) {vm : Vm} (h : Reachable vm) : Reachable (quietly n vm) := by
  induction n with
  | zero => exact h
  | succ n ih => exact .iterate _ .quiet ih

/-- Such a run, when every step of it meets the condition. -/
theorem quietly_guarded {ok : Vm → Prop} (ram : Memory) {n : Nat}
    (h : ∀ k < n, ok (quietly k (vmInit ram))) : GuardedRun ok (quietly n (vmInit ram)) := by
  induction n with
  | zero => exact .init ram
  | succ n ih => exact .iterate _ .quiet (ih fun k hk => h k (by omega)) (h n (by omega))

/-- The CSR write that the word of the step asks for. -/
def stepWrite (vm : Vm) : Option (BitVec 12 × BitVec 64) :=
  match translateAddress vm.cpu vm.bus vm.cpu.pc .fetch with
  | (bus, .ok p) => csrRequest (fetched vm bus) (vmBusRead32 bus p)
  | (_, .error _) => none

theorem WritesCsr.asked {vm : Vm} {a : BitVec 12} {value : BitVec 64} (h : WritesCsr vm a value) :
    stepWrite vm = some (a, value) := by
  obtain ⟨bus, p, ht, hreq, _⟩ := h
  rw [stepWrite, ht]
  exact hreq

theorem WritesCsr.meets {vm : Vm} {a : BitVec 12} {value : BitVec 64} (h : WritesCsr vm a value)
    {P : BitVec 12 × BitVec 64 → Prop} [DecidablePred P]
    (hall : (stepWrite vm).all (fun w => decide (P w)) = true) : P (a, value) := by
  rw [h.asked] at hall
  exact of_decide_eq_true hall

/-- A start in M: `lui x1, 1; addi x1, x1, -2048; csrw mstatus, x1` for S in MPP,
`addi x3, x0, 1; slli x3, x3, 63; csrw satp, x3` for Sv39 with an empty root,
`auipc x2, 0; addi x2, x2, 28` and `csrw` of `x2` to mepc, mtvec and sepc, then
`jal x0, 4; mret`. The fetch in S faults, and the handler is `csrr x4, instret`. -/
def startup : Memory := ramOf
  [(0, 0x80008093000010B7), (8, 0x0010019330009073), (16, 0x1801907303F19193),
    (24, 0x01C1011300000117), (32, 0x3051107334111073), (40, 0x0040006F14111073),
    (48, 0xC020227330200073)]

end RiscvVm.Proofs
