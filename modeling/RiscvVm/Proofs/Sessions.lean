import RiscvVm.Proofs.Console
import RiscvVm.Proofs.Pending
import RiscvVm.Proofs.Snapshots
import RiscvVm.Proofs.Zicsr

namespace RiscvVm.Proofs

/-- The machines of the debugger: what its commands do to one, in any order. It
is never ticked and never polled. -/
inductive Debugged : Vm → Prop
  | init (ram : Memory) :
      Debugged { vmInit ram with cpu := { (vmInit ram).cpu with priviledge := uMode } }
  | step {vm : Vm} (h : Debugged vm) : Debugged (cpuStep vm)
  | fetch {vm : Vm} (h : Debugged vm) : Debugged (cpuFetch vm).1
  | write {vm : Vm} (h : Debugged vm) (addr value : BitVec 64) :
      Debugged { vm with bus := vmBusWrite64 vm.bus addr value }
  | fill {vm : Vm} (h : Debugged vm) (ram : Memory) :
      Debugged { vm with bus := { vm.bus with ram := ram } }
  | jump {vm : Vm} (h : Debugged vm) (pc : BitVec 64) :
      Debugged { vm with cpu := { vm.cpu with pc := pc } }
  | reset {vm : Vm} (h : Debugged vm) : Debugged (cmdReset vm)

section
variable {vm vm' : Vm}

theorem Debugged.step_loop (h : Debugged vm) (steps : Nat) : Debugged (stepLoop steps vm) := by
  induction steps generalizing vm with
  | zero => exact h
  | succ steps ih =>
    rw [stepLoop, disassemble_line_vm]
    exact ih h.step

theorem Debugged.loop {test : Vm → Bool} (h : Debugged vm) {turns : Nat}
    (hl : Fuel.loop test cpuStep turns vm = some vm') : Debugged vm' := by
  induction turns generalizing vm with
  | zero => cases hl
  | succ turns ih =>
    rw [Fuel.loop] at hl
    split at hl
    · cases hl
      exact h
    · exact ih h.step hl

theorem Debugged.next (h : Debugged vm) {turns : Nat} (hn : cmdNext turns vm = some vm') :
    Debugged vm' := by
  have hfetch := h.fetch
  unfold cmdNext at hn
  split at hn
  · rename_i hf
    rw [hf] at hfetch
    cases hn
    exact hfetch
  · rename_i hf
    rw [hf] at hfetch
    split at hn
    · rw [next_loop_eq] at hn
      exact hfetch.loop hn
    · cases hn
      exact hfetch

theorem Debugged.load {fopen : String → Option (List (BitVec 8))} {argv : List String}
    {message : LoadMessage} (h : Debugged vm)
    (hload : cmdLoad fopen vm argv = some (vm', message)) : Debugged vm' := by
  have hfile : ∀ {vm : Vm} {path addr}, Debugged vm →
      loadFile fopen vm path addr = some (vm', message) → Debugged vm' := by
    intro vm path addr h hload
    unfold loadFile at hload
    split at hload
    · cases hload
      exact h
    · dsimp only at hload
      split at hload
      · cases hload
        exact h
      · cases hram : loadLoop vm.bus.ram (addr - ramBase) _ with
        | none =>
          rw [hram] at hload
          cases hload
        | some ram =>
          rw [hram] at hload
          cases hload
          exact h.fill ram
  unfold cmdLoad at hload
  split at hload
  · cases hload
    exact h
  · split at hload
    · exact hfile h hload
    · split at hload
      · cases hload
        exact h
      · exact hfile (h.jump _) hload

theorem Debugged.write_command (h : Debugged vm) (argv : List String) :
    Debugged (cmdWrite vm argv) := by
  unfold cmdWrite
  split
  · split
    · exact h.write _ _
    · exact h
  · exact h

/-- Every command of a session leaves such a machine. -/
theorem debugged_keeping : Keeping (fun session => Debugged session.vm) fun _ => True where
  call := by
    intro d turns session session' line command h _ _ hscript hcall
    have hran : ∀ {o : Option Vm}, session.ranTo o = .ok session' →
        (∀ vm, o = some vm → Debugged vm) → Debugged session'.vm := by
      intro o ho hvm
      cases o with
      | none => cases ho
      | some vm =>
        cases ho
        exact hvm vm rfl
    cases command with
    | cmdRun =>
      refine hran hcall fun vm hvm => ?_
      rw [run_loop_eq] at hvm
      exact h.loop hvm
    | cmdNext => exact hran hcall fun vm hvm => h.next hvm
    | cmdScript => exact absurd rfl hscript
    | cmdStep =>
      cases hcall
      dsimp only [cmdStep]
      split
      · exact h
      · exact h.step_loop _
    | cmdState =>
      cases hcall
      exact h.fetch
    | cmdMem =>
      cases hcall
      dsimp only
      rw [cmd_mem_vm]
      exact h
    | cmdDisassemble =>
      cases hcall
      dsimp only
      rw [cmd_disassemble_vm]
      exact h
    | cmdWrite =>
      cases hcall
      exact h.write_command _
    | cmdReset =>
      cases hcall
      exact h.reset
    | cmdBreak =>
      simp only [callCommand] at hcall
      split at hcall <;> cases hcall
      exact h
    | cmdLoad =>
      simp only [callCommand] at hcall
      split at hcall
      · cases hcall
      · rename_i hload
        cases hcall
        exact h.load hload
    | cmdSave =>
      simp only [callCommand, cmdSave] at hcall
      split at hcall <;> cases hcall
      exact h
    | cmdReload =>
      simp only [callCommand, cmdReload] at hcall
      split at hcall
      · cases hcall
      · rename_i file _
        cases hcall
        exact (h.fill (freadRam session.vm.bus.ram file)).reset
  script := fun _ _ _ _ _ _ _ => trivial

/-- Wherever a session has got to, its machine is one of these. -/
theorem session_debugged {fuel : Nat} {session session' : Session} {stdin : List (BitVec 8)}
    {code : BitVec 8} (h : Debugged session.vm)
    (hrun : cliRun fuel session stdin = .ok (session', code)) : Debugged session'.vm := by
  rw [cliRun] at hrun
  generalize linesOf 1024 stdin = lines at hrun
  induction lines generalizing session with
  | nil =>
    cases hrun
    exact h
  | cons line lines ih =>
    rw [cliLoop] at hrun
    cases hd : dispatchCommand fuel session (inputText line) with
    | error e =>
      rw [hd] at hrun
      cases hrun
    | ok done =>
      have hdone : Debugged done.1.vm := debugged_keeping.dispatch h trivial hd
      obtain ⟨after, goOn⟩ := done
      rw [hd] at hrun
      cases goOn
      · cases hrun
        exact hdone
      · exact ih hdone hrun

end

/-- A machine that hears nothing: no byte of the host has come to the UART and
no interrupt of M is pending. -/
structure Deaf (vm : Vm) : Prop where
  empty : queued vm.bus.uart = []
  quiet : ∀ cause ∈ machineCauses, (vm.cpu.csrs csrMip).getLsbD cause = false

section
variable {vm : Vm}

/-- Without input the queue stays empty. -/
theorem access_empty {t : Terminal} (hin : t.stdin = []) (h : queued t.uart = [])
    (access : UartAccess) : queued (t.access access).uart = [] := by
  cases access with
  | host ready =>
    have hnone : uartHandleHostInput t.uart none = t.uart := by
      unfold uartHandleHostInput
      split <;> rfl
    unfold Terminal.access Terminal.handleHostInput
    dsimp only
    split
    · exact h
    · split
      · rename_i hsome
        rw [hin] at hsome
        cases hsome
      · dsimp only
        rw [hnone]
        exact h
  | read offset =>
    cases hr : readsBuffer t.uart offset with
    | true =>
      rw [Terminal.access, buffer_read_empty hr (count_zero_iff.mpr h)]
      exact h
    | false => exact (read_keeps_receiver hr).queued.trans h
  | write offset value =>
    cases hc : clearsReceiver offset value with
    | true => exact (clear_empties t.uart hc).1
    | false => exact (write_keeps_receiver t.uart hc).queued.trans h

theorem Deaf.step (h : Deaf vm) : Deaf (cpuStep vm) := by
  constructor
  · have hserves := (@step_serves vm).uart []
    have huart := congrArg Terminal.uart hserves
    dsimp only at huart
    rw [huart]
    cases stepRequest vm with
    | none => exact h.empty
    | some access => exact access_empty rfl h.empty access
  · intro cause hcause
    obtain ⟨hlt, hmask⟩ := machine_cause_mask hcause
    rw [(processed_mip vm).2.bit hlt hmask]
    exact h.quiet cause hcause

theorem Deaf.fetch (h : Deaf vm) : Deaf (cpuFetch vm).1 := by
  obtain ⟨huart, _⟩ := translate_silent vm.cpu vm.bus vm.cpu.pc .fetch
  unfold cpuFetch
  rcases ht : translateAddress vm.cpu vm.bus vm.cpu.pc .fetch with ⟨bus, e | p⟩
  · rw [ht] at huart
    refine ⟨(congrArg queued huart).trans h.empty, fun cause hcause => ?_⟩
    have hmip : (raiseException vm.cpu e vm.cpu.pc).csrs csrMip = vm.cpu.csrs csrMip :=
      raise_exception_csrs _ _ _ (by decide)
    exact (congrArg (·.getLsbD cause) hmip).trans (h.quiet cause hcause)
  · rw [ht] at huart
    exact ⟨(congrArg queued huart).trans h.empty, h.quiet⟩

theorem write64_uart (bus : Bus) (addr value : BitVec 64) :
    (vmBusWrite64 bus addr value).uart = bus.uart := by
  unfold vmBusWrite64
  split
  · rfl
  · split
    · rfl
    · split <;> rfl

theorem reset_mip (cpu : Cpu) (addr : BitVec 64) : (cpuReset cpu addr).csrs csrMip = 0 := rfl

theorem debugged_deaf (h : Debugged vm) : Deaf vm := by
  induction h with
  | init ram => exact ⟨rfl, fun cause _ => by simp [vmInit, reset_mip]⟩
  | step _ ih => exact ih.step
  | fetch _ ih => exact ih.fetch
  | write _ addr value ih =>
    refine ⟨?_, ih.quiet⟩
    dsimp only
    rw [write64_uart]
    exact ih.empty
  | fill _ ram ih => exact ⟨ih.empty, ih.quiet⟩
  | jump _ pc ih => exact ⟨ih.empty, ih.quiet⟩
  | reset _ ih => exact ⟨ih.empty, fun cause _ => by simp [cmdReset, reset_mip]⟩

/-- What a program hears under the debugger, wherever a session has got to:
nothing. The line status has no data, a load of the receiver buffer gives 0 and
no step takes an interrupt of M. -/
theorem debugger_deaf :
    (∀ ram files fuel stdin session code,
      cliRun fuel (debuggerInit ram files) stdin = .ok (session, code) →
        Debugged session.vm) ∧
    ∀ vm, Debugged vm →
      Deaf vm ∧ (uartRead8 vm.bus.uart uartLsr).2 &&& uartLsrDataReady = 0 ∧
      (∀ offset, stepRequest vm = some (.read offset) → readsBuffer vm.bus.uart offset = true →
        ∃ word, fetchedWord vm = some word ∧
          (cpuStep vm).cpu.regs = (cpuWriteReg vm.cpu (rdOf word) 0).regs) ∧
      ∀ cause ∈ machineCauses, interruptTaken vm ≠ some cause := by
  refine ⟨fun ram files fuel stdin session code hrun => ?_, fun vm h => ?_⟩
  · exact session_debugged (.init ram) hrun
  · have hdeaf := debugged_deaf h
    refine ⟨hdeaf, ?_, fun offset hread hbuffer => ?_, fun cause hcause htaken => ?_⟩
    · refine Decidable.byContradiction fun hne => ?_
      exact (line_status vm.bus.uart).mp hne hdeaf.empty
    · obtain ⟨word, hword, _, hregs⟩ := step_receives hread
      refine ⟨word, hword, hregs.trans ?_⟩
      rw [buffer_read_empty hbuffer (count_zero_iff.mpr hdeaf.empty)]
      have hzero : extendByte word 0 = 0 := by
        unfold extendByte
        split <;> rfl
      rw [hzero]
    · have hpending := taken_pending htaken hcause
      rw [hdeaf.quiet cause hcause] at hpending
      cases hpending

end

end RiscvVm.Proofs
