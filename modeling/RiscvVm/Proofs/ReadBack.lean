import RiscvVm.Proofs.Zicsr
import RiscvVm.Proofs.History

namespace RiscvVm.Proofs

/-- CSRRW or CSRRWI in M, which writes a CSR other than mcycle in a step that
takes no trap; `after` is the CPU as `csr_write` leaves it. -/
structure WriteStep (vm : Vm) (word : BitVec 32) (after : Cpu) : Prop where
  machine : vm.cpu.priviledge = mMode
  fetch : fetchedWord vm = some word
  csr : IsCsr word
  replace : IsReplace word
  other : csrOf word ≠ csrMcycle
  written : csrWrite (beginStep vm.cpu) (csrOf word) (csrSource (fetched vm vm.bus) word) =
    some after
  quiet : (cpuStep vm).cpu.trapTaken = false

/-- The instruction to be fetched is `csrrs rd, csr, x0`. -/
structure ReadsCsr (vm : Vm) (word : BitVec 32) (csr : BitVec 12) : Prop where
  fetch : fetchedWord vm = some word
  csrrs : opcodeOf word = Opcode.code .system ∧ funct3Of word = 2
  source : rs1Of word = 0
  addr : csrOf word = csr

/-- The step writes this value to its `rd`, and no other register. -/
def Receives (vm : Vm) (word : BitVec 32) (value : BitVec 64) : Prop :=
  (cpuStep vm).cpu.regs = (cpuWriteReg vm.cpu (rdOf word) value).regs

theorem check_untrapped {cpu : Cpu} (h : (cpuCheckInterrupts cpu).trapTaken = false) :
    cpuCheckInterrupts cpu = cpu := by
  rw [check_interrupts_eq] at h ⊢
  cases hsel : selected cpu with
  | none => rfl
  | some cause =>
    rw [hsel] at h
    dsimp only at h
    rw [raise_interrupt_eq cpu (selected_lt hsel)] at h
    split at h <;> cases h

/-- A step without a trap counts its instruction and takes no interrupt. -/
theorem finish_untrapped {done : Vm} (h : (finish (retire done)).cpu.trapTaken = false) :
    done.cpu.trapTaken = false ∧
    (finish (retire done)).cpu.priviledge = done.cpu.priviledge ∧
    (finish (retire done)).cpu.csrs =
      (done.cpu.setCsr csrMinstret (done.cpu.csrs csrMinstret + 1)).csrs := by
  have hcheck : cpuCheckInterrupts (retire done).cpu = (retire done).cpu := check_untrapped h
  have htaken : done.cpu.trapTaken = false := by
    rw [finish, on_cpu_cpu, hcheck] at h
    exact (retire_taken done).symm.trans h
  rw [finish, on_cpu_cpu, hcheck, retire_cpu, htaken]
  exact ⟨rfl, rfl, rfl⟩

/-- In M the word is fetched from its physical address and the bus is left alone. -/
theorem machine_step {vm : Vm} {word : BitVec 32} (hm : vm.cpu.priviledge = mMode)
    (hw : fetchedWord vm = some word) :
    cpuStep vm = finish (retire (dispatchInstruction (fetched vm vm.bus) word)) := by
  have heff : effectivePriviledge vm.cpu .fetch = mMode := by
    rw [effectivePriviledge, if_neg fun h => h.2.1 rfl, hm]
  have ht := translate_machine heff vm.bus vm.cpu.pc
  obtain ⟨hp, hs⟩ := step_of_fetch ht
  rw [fetchedWord, ht] at hw
  cases hw
  rw [hs, hp]

/-- The CPU the reading step finds: the CSRs as written, but for the instruction
counted since and the bits of mip that the timer drives. -/
structure Carries (after cpu : Cpu) : Prop where
  machine : cpu.priviledge = mMode
  counted : cpu.csrs csrMinstret = after.csrs csrMinstret + 1
  pending : Bits.EqOff ((1#64 <<< irqSoftware) ||| (1#64 <<< irqTimer)) (cpu.csrs csrMip)
    (after.csrs csrMip)
  others : ∀ a, a ≠ csrMinstret → a ≠ csrMip → cpu.csrs a = after.csrs a

theorem WriteStep.left {vm : Vm} {word : BitVec 32} {after : Cpu} (h : WriteStep vm word after) :
    (cpuStep vm).cpu.priviledge = mMode ∧
    (cpuStep vm).cpu.csrs = (after.setCsr csrMinstret (after.csrs csrMinstret + 1)).csrs := by
  have hquiet := h.quiet
  rw [machine_step h.machine h.fetch, dispatch_csr _ h.csr] at hquiet ⊢
  obtain ⟨htaken, hpriv, hcsrs⟩ := finish_untrapped hquiet
  rw [hpriv, hcsrs]
  rcases zicsr_cases (fetched vm vm.bus) word with ⟨_, he⟩ | ⟨_, old, cpu, hperf⟩
  · rw [he] at htaken
    exact absurd ((raise_exception_taken _ _ _).symm.trans htaken) (by decide)
  have hwrites := hperf.written (.inl h.replace)
  have hsource : csrCombine word old (csrSource (fetched vm vm.bus) word) =
      csrSource (fetched vm vm.bus) word := if_pos h.replace
  rw [hsource, fetched_cpu, h.written] at hwrites
  cases hwrites
  rw [hperf.result]
  constructor
  · rw [write_reg_priviledge, writes_eq (csr_write_cases h.written).2]
    exact h.machine
  · funext a
    simp only [set_csr_csrs, write_reg_csrs]

theorem WriteStep.carries {vm : Vm} {word : BitVec 32} {after : Cpu}
    (h : WriteStep vm word after) : Carries after (cpuStep vm).cpu := by
  obtain ⟨hpriv, hcsrs⟩ := h.left
  refine ⟨hpriv, ?_, ?_, fun a ha _ => ?_⟩
  · rw [hcsrs, set_csr_csrs, if_pos rfl]
  · rw [hcsrs]
    exact .refl _ _
  · rw [hcsrs, set_csr_csrs, if_neg ha]

/-- The tick between two steps of the main loop drives its bits of mip. -/
theorem Carries.pend {after cpu : Cpu} {cause : Nat} {pending : Bool} (h : Carries after cpu)
    (hc : cause = irqSoftware ∨ cause = irqTimer) :
    Carries after (cpuSetInterruptPending cpu cause pending) := by
  rw [set_pending_eq]
  refine ⟨h.machine, h.counted, ?_, fun a hi hm => ?_⟩
  · rw [set_csr_csrs, if_pos rfl]
    exact (pending_off hc (by decide) (by decide)).trans h.pending
  · rw [set_csr_csrs, if_neg hm]
    exact h.others a hi hm

theorem minstret_read {m : Vm} (hm : m.cpu.priviledge = mMode) :
    csrRead m csrMinstret = some (m.cpu.csrs csrMinstret) := by
  unfold csrRead csrCanRead
  rw [hm]
  rfl

/-- sip shows none of the bits that the timer drives. -/
theorem sip_carried {after : Cpu} {m m' : Vm} (h : Carries after m.cpu)
    (hafter : after.priviledge = mMode) :
    csrRead (fetched m m.bus) csrSip = csrRead { m' with cpu := after } csrSip := by
  have hmem : sipView ∈ supervisorViews := by simp [supervisorViews]
  have hlevel : sMode ≤ mMode := by decide
  have hm : sMode ≤ (fetched m m.bus).cpu.priviledge := h.machine ▸ hlevel
  have ha : sMode ≤ { m' with cpu := after }.cpu.priviledge := hafter ▸ hlevel
  have hdeleg : m.cpu.csrs csrMideleg = after.csrs csrMideleg :=
    h.others _ (by decide) (by decide)
  have hoff : (supervisorInterruptMask &&& after.csrs csrMideleg) &&&
      ((1#64 <<< irqSoftware) ||| (1#64 <<< irqTimer)) = 0 := by
    rw [BitVec.and_comm supervisorInterruptMask, BitVec.and_assoc]
    exact BitVec.and_zero
  have hbits := h.pending.and_eq hoff
  refine (view_read hmem hm).trans (Eq.trans ?_ (view_read hmem ha).symm)
  refine congrArg (fun x => some (x ||| 0#64)) (Eq.trans ?_ hbits)
  rw [← hdeleg]
  rfl

section
variable {vm m : Vm} {word next : BitVec 32} {after : Cpu} {c : BitVec 12}

/-- Apart from minstret, and mip if the timer has run, the reading step finds
what was written. -/
theorem carried_read (h : Carries after m.cpu) (hafter : after.priviledge = mMode)
    (hcan : csrCanWrite c mMode = true) (hcycle : c ≠ csrMcycle) (hinstret : c ≠ csrMinstret)
    (hmip : c = csrMip → m.cpu.csrs csrMip = after.csrs csrMip) :
    csrRead (fetched m m.bus) c = csrRead { vm with cpu := after } c := by
  by_cases hsip : c = csrSip
  · rw [hsip]
    exact sip_carried h hafter
  have hshown : (shown.all fun entry =>
      (entry.2 != csrMcycle && entry.2 != csrMinstret || !csrCanWrite entry.1 mMode) &&
        (entry.2 != csrMip || entry.1 == csrSip)) = true := by decide
  refine csr_read_congr (h.machine.trans hafter.symm) ?_ ?_ fun a ha => ?_
  · rintro rfl
    exact absurd hcan (by decide)
  · rw [fetched_cpu, begin_csrs m.cpu hcycle]
    by_cases hc : c = csrMip
    · rw [hc]
      exact hmip hc
    · exact h.others c hinstret hc
  · have hentry := List.all_eq_true.mp hshown _ ha
    simp only [hcan, Bool.not_true, Bool.or_false, Bool.and_eq_true, bne_iff_ne, Bool.or_eq_true,
      beq_iff_eq, hsip, or_false] at hentry
    obtain ⟨⟨hcyc, hins⟩, hpend⟩ := hentry
    rw [fetched_cpu, begin_csrs m.cpu hcyc]
    exact h.others a hins hpend

theorem ReadsCsr.step (hm : m.cpu.priviledge = mMode) (h : ReadsCsr m next c) {value : BitVec 64}
    (hread : csrRead (fetched m m.bus) c = some value) :
    (cpuStep m).cpu.regs = (cpuWriteReg m.cpu (rdOf next) value).regs := by
  have hcsr : IsCsr next := ⟨h.csrrs.1, by rw [h.csrrs.2]; decide, by rw [h.csrrs.2]; decide⟩
  have hno : ¬ NeedsWrite next := by
    simp [NeedsWrite, IsReplace, h.csrrs.2, h.source]
  rw [← h.addr] at hread
  rw [machine_step hm h.fetch, finish_retire_regs, dispatch_csr _ hcsr, zicsr_read_only hno hread]
  exact write_begin_regs m.cpu (rdOf next) value

theorem receives_iff (hw : WriteStep vm word after) (hc : Carries after m.cpu) {r : BitVec 64}
    (hr : csrRead { vm with cpu := after } (csrOf word) = some r)
    (hmip : csrOf word = csrMip → m.cpu.csrs csrMip = after.csrs csrMip)
    (hn : ReadsCsr m next (csrOf word)) :
    Receives m next r ↔ rdOf next = 0 ∨ csrOf word ≠ csrMinstret := by
  obtain ⟨hcan, hwrites⟩ := csr_write_cases hw.written
  have hafter : after.priviledge = mMode := by
    rw [writes_eq hwrites]
    exact hw.machine
  unfold Receives
  by_cases hinstret : csrOf word = csrMinstret
  · rw [hinstret] at hn hr
    rw [minstret_read hafter] at hr
    cases hr
    rw [hn.step hc.machine (minstret_read hc.machine), write_reg_regs_inj]
    have hcount : (fetched m m.bus).cpu.csrs csrMinstret = after.csrs csrMinstret + 1 := hc.counted
    rw [hcount]
    simp [hinstret]
  · have hcan' : csrCanWrite (csrOf word) mMode = true := hw.machine ▸ hcan
    have hread : csrRead (fetched m m.bus) (csrOf word) =
        csrRead { vm with cpu := after } (csrOf word) :=
      carried_read hc hafter hcan' hw.other hinstret hmip
    rw [hr] at hread
    exact iff_of_true (hn.step hc.machine hread) (.inr hinstret)

end

/-- What CSRRW or CSRRWI writes in M is what the next instruction reads, with or
without a tick of the timer between them, unless it goes to minstret: that
write is counted on top. -/
theorem csr_write_read_next {vm : Vm} {word : BitVec 32} {after : Cpu} {r : BitVec 64}
    (hw : WriteStep vm word after)
    (hr : csrRead { vm with cpu := after } (csrOf word) = some r) :
    (∀ next, ReadsCsr (cpuStep vm) next (csrOf word) →
      (Receives (cpuStep vm) next r ↔ rdOf next = 0 ∨ csrOf word ≠ csrMinstret)) ∧
    ∀ host next, csrOf word ≠ csrMip → ReadsCsr (mainLoop vm host) next (csrOf word) →
      (Receives (mainLoop vm host) next r ↔ rdOf next = 0 ∨ csrOf word ≠ csrMinstret) := by
  have hcarries := hw.carries
  constructor
  · intro next hn
    refine receives_iff hw hcarries hr (fun hc => ?_) hn
    rw [hw.left.2, set_csr_csrs, if_neg (by decide)]
  · intro host next hmip hn
    have htick : Carries after (mainLoop vm host).cpu :=
      tick_keeps (fun h hc => h.pend hc) hcarries host
    exact receives_iff hw htick hr (fun hc => absurd hc hmip) hn

/-- `csrrwi x0, csr, 5; csrrs x5, csr, x0` at reset. -/
def writeThenRead (csr : BitVec 12) : Vm :=
  vmInit (ramOf [(0, (csr ++ 0x022F3#20) ++ (csr ++ 0x2D073#20))])

/-- The CPU inside the first instruction of that program, after its write. -/
def justWritten (csr : BitVec 12) : Cpu :=
  (beginStep (writeThenRead csr).cpu).setCsr csr 5

theorem mscratch_write_step :
    WriteStep (writeThenRead csrMscratch) 0x3402D073 (justWritten csrMscratch) :=
  { machine := rfl
    fetch := by decide
    csr := by decide
    replace := by decide
    other := by decide
    written := rfl
    quiet := by decide }

/-- mscratch is written with 5 and then reads 5. -/
theorem mscratch_reads_next : Receives (cpuStep (writeThenRead csrMscratch)) 0x340022F3 5 :=
  ((csr_write_read_next mscratch_write_step rfl).1 0x340022F3
    ⟨by decide, by decide, by decide, by decide⟩).mpr (.inr (by decide))

theorem minstret_write_step :
    WriteStep (writeThenRead csrMinstret) 0xB022D073 (justWritten csrMinstret) :=
  { machine := rfl
    fetch := by decide
    csr := by decide
    replace := by decide
    other := by decide
    written := rfl
    quiet := by decide }

theorem minstret_next_reads :
    ReadsCsr (cpuStep (writeThenRead csrMinstret)) 0xB02022F3 csrMinstret :=
  ⟨by decide, by decide, by decide, by decide⟩

/-- minstret is written with 5 and then reads 6. -/
theorem minstret_counts_its_write :
    (cpuStep (cpuStep (writeThenRead csrMinstret))).cpu.regs 5 = 6 ∧
    ¬ ∀ (vm : Vm) (word next : BitVec 32) (after : Cpu) (r : BitVec 64),
      WriteStep vm word after → csrRead { vm with cpu := after } (csrOf word) = some r →
      ReadsCsr (cpuStep vm) next (csrOf word) → Receives (cpuStep vm) next r := by
  have hsix : (cpuStep (cpuStep (writeThenRead csrMinstret))).cpu.regs 5 = 6 := by decide
  refine ⟨hsix, fun h => ?_⟩
  have hreads := congrFun (h _ _ _ _ 5 minstret_write_step rfl minstret_next_reads) 5
  rw [hsix] at hreads
  exact absurd hreads (by decide)

end RiscvVm.Proofs
