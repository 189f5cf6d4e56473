import RiscvVm.Proofs.Privilege

namespace RiscvVm.Proofs
open Bits

/-- The CSRs of M that nothing below M may change. -/
def machineCsrs : List (BitVec 12) :=
  [csrMisa, csrMtvec, csrMedeleg, csrMideleg, csrMscratch, csrMepc, csrMcause, csrMtval,
    csrMcounteren, csrMhartid, csrMvendorid, csrMarchid, csrMimpid]

/-- The change of CSRs that code below M can bring about without entering M,
apart from the counting of cycles and instructions. -/
structure Isolated (cpu cpu' : Cpu) : Prop where
  machine : ∀ a ∈ machineCsrs, cpu'.csrs a = cpu.csrs a
  counters : ∀ a ∈ [csrMcycle, csrMinstret], cpu'.csrs a = cpu.csrs a
  mstatus : EqOff sstatusWriteMask (cpu'.csrs csrMstatus) (cpu.csrs csrMstatus)
  mie : EqOff (supervisorInterruptMask &&& cpu.csrs csrMideleg) (cpu'.csrs csrMie)
    (cpu.csrs csrMie)
  mip : EqOff (supervisorInterruptMask &&& cpu.csrs csrMideleg) (cpu'.csrs csrMip)
    (cpu.csrs csrMip)

theorem Isolated.of_csrs {cpu cpu' : Cpu} (h : cpu'.csrs = cpu.csrs) : Isolated cpu cpu' := by
  refine ⟨fun a _ => ?_, fun a _ => ?_, ?_, ?_, ?_⟩ <;> rw [h]
  · exact EqOff.refl _ _
  · exact EqOff.refl _ _
  · exact EqOff.refl _ _

theorem Isolated.trans {a b c : Cpu} (h : Isolated a b) (g : Isolated b c) : Isolated a c := by
  have hdeleg : b.csrs csrMideleg = a.csrs csrMideleg := h.machine _ (by decide)
  have hmie := g.mie
  have hmip := g.mip
  rw [hdeleg] at hmie hmip
  exact ⟨fun x hx => (g.machine x hx).trans (h.machine x hx),
    fun x hx => (g.counters x hx).trans (h.counters x hx), g.mstatus.trans h.mstatus,
    hmie.trans h.mie, hmip.trans h.mip⟩

/-- A change of `mstatus` and of CSRs that are not M's. -/
theorem Isolated.of_supervisor {cpu cpu' : Cpu}
    (hstatus : EqOff sstatusWriteMask (cpu'.csrs csrMstatus) (cpu.csrs csrMstatus))
    (hrest : ∀ a, a ≠ csrMstatus → (a >>> 8) &&& 0x03 = 3 → cpu'.csrs a = cpu.csrs a) :
    Isolated cpu cpu' := by
  have hlevel : ∀ a ∈ machineCsrs, a ≠ csrMstatus ∧ (a >>> 8) &&& 0x03 = 3 := by
    intro a ha
    simp only [machineCsrs, List.mem_cons, List.not_mem_nil, or_false] at ha
    rcases ha with rfl | rfl | rfl | rfl | rfl | rfl | rfl | rfl | rfl | rfl | rfl | rfl | rfl <;>
      decide
  refine ⟨fun a ha => hrest a (hlevel a ha).1 (hlevel a ha).2, fun a ha => ?_, hstatus, ?_, ?_⟩
  · simp only [List.mem_cons, List.not_mem_nil, or_false] at ha
    rcases ha with rfl | rfl <;> exact hrest _ (by decide) (by decide)
  · rw [hrest csrMie (by decide) (by decide)]
    exact EqOff.refl _ _
  · rw [hrest csrMip (by decide) (by decide)]
    exact EqOff.refl _ _

theorem s_trap_status_off (cpu : Cpu) :
    EqOff sstatusWriteMask (sTrapStatus cpu) (cpu.csrs csrMstatus) := by
  refine eqOff_iff.mpr fun i hi hmask => ?_
  have hne : i ≠ 1 ∧ i ≠ 5 ∧ i ≠ 8 := by
    refine ⟨?_, ?_, ?_⟩ <;> rintro rfl <;> exact absurd hmask (by decide)
  rw [s_trap_status_get, if_neg hne.1, if_neg hne.2.1, if_neg hne.2.2]

theorem sret_status_off (mstatus : BitVec 64) :
    EqOff sstatusWriteMask (sretStatus mstatus) mstatus := by
  refine eqOff_iff.mpr fun i hi hmask => ?_
  have hne : i ≠ 1 ∧ i ≠ 5 ∧ i ≠ 8 := by
    refine ⟨?_, ?_, ?_⟩ <;> rintro rfl <;> exact absurd hmask (by decide)
  rw [sret_status_get, if_neg hne.2.2, if_neg hne.2.1, if_neg hne.1]

theorem trap_to_s_isolated (cpu : Cpu) (cause tvalue : BitVec 64) :
    Isolated cpu (trapToS cpu cause tvalue) := by
  refine .of_supervisor (s_trap_status_off cpu) fun a hne hlevel => ?_
  have hs : ∀ b : BitVec 12, (b >>> 8) &&& 0x03 ≠ 3 → a ≠ b := by
    rintro b hb rfl
    exact hb hlevel
  rw [trap_to_s_csrs, if_neg hne, if_neg (hs _ (by decide)), if_neg (hs _ (by decide)),
    if_neg (hs _ (by decide))]

/-- A CSR write made below M. -/
theorem writes_isolated {cpu cpu' : Cpu} {addr : BitVec 12} {value : BitVec 64}
    (hp : cpu.priviledge = uMode ∨ cpu.priviledge = sMode)
    (hcan : csrCanWrite addr cpu.priviledge = true) (h : Writes cpu addr value cpu') :
    Isolated cpu cpu' := by
  have hlegal : Legal cpu.priviledge := hp.elim Or.inl fun h => Or.inr (Or.inl h)
  have hlevel : (addr >>> 8) &&& 0x03 ≠ 3 := by
    intro h3
    have hm := can_write_machine hlegal.le h3 hcan
    rcases hp with h | h <;> rw [h] at hm <;> exact absurd hm (by decide)
  have hset : ∀ (b : BitVec 12) (v : BitVec 64), (b >>> 8) &&& 0x03 ≠ 3 → Isolated cpu (cpu.setCsr b v) := by
    intro b v hb
    refine .of_supervisor ?_ fun a _ ha => if_neg ?_
    · rw [set_csr_csrs, if_neg]
      · exact EqOff.refl _ _
      · rintro rfl
        exact hb (by decide)
    · rintro rfl
      exact hb ha
  cases h with
  | misa ha => exact absurd (by rw [ha]; decide) hlevel
  | mtvec ha => exact absurd (by rw [ha]; decide) hlevel
  | stvec ha => exact hset _ _ (by decide)
  | sstatus ha =>
    exact .of_supervisor (eqOff_blend sstatusWriteMask (cpu.csrs csrMstatus) value)
      fun a hne _ => if_neg hne
  | sie ha =>
    refine ⟨fun a ha => ?_, fun a ha => ?_, EqOff.refl _ _, eqOff_blend _ (cpu.csrs csrMie) value,
      EqOff.refl _ _⟩
    · refine if_neg ?_
      rintro rfl
      exact absurd ha (by decide)
    · refine if_neg ?_
      rintro rfl
      exact absurd ha (by decide)
  | sip ha =>
    refine ⟨fun a ha => ?_, fun a ha => ?_, EqOff.refl _ _, EqOff.refl _ _,
      eqOff_blend _ (cpu.csrs csrMip) value⟩
    · refine if_neg ?_
      rintro rfl
      exact absurd ha (by decide)
    · refine if_neg ?_
      rintro rfl
      exact absurd ha (by decide)
  | masked himp hw => exact hset _ _ hlevel

/-- U may write none of the CSRs that exist. -/
theorem user_writes_none {addr : BitVec 12} (himp : (csrTable addr).implemented = true) :
    csrCanWrite addr uMode = false := by
  have hall : (csrLoad.map Prod.fst).all (fun a => !csrCanWrite a uMode) = true := by decide
  have hmem : addr ∈ csrLoad.map Prod.fst := List.mem_map_of_mem (table_mem himp)
  simpa using List.all_eq_true.mp hall addr hmem

theorem raise_exception_isolated {cpu : Cpu} {cause tvalue : BitVec 64}
    (h : (raiseException cpu cause tvalue).priviledge ≠ mMode) :
    Isolated cpu (raiseException cpu cause tvalue) := by
  unfold raiseException at h ⊢
  dsimp only at h ⊢
  split at h
  · rename_i hd
    rw [if_pos hd]
    exact trap_to_s_isolated cpu cause tvalue
  · exact absurd rfl h

theorem executes_isolated {vm done : Vm} {word : BitVec 32}
    (hp : vm.cpu.priviledge = uMode ∨ vm.cpu.priviledge = sMode) (hx : Executes vm word done)
    (hd : done.cpu.priviledge ≠ mMode) : Isolated vm.cpu done.cpu := by
  cases executes_control hx with
  | plain hcsrs hpriv htaken => exact .of_csrs hcsrs
  | trap he =>
    rw [he] at hd ⊢
    exact raise_exception_isolated hd
  | csr addr new cpu hreq hcan hw hcsrs hpriv htaken =>
    exact (writes_isolated hp hcan hw).trans (.of_csrs hcsrs)
  | sret hword hpriv he =>
    rw [he, sret_eq word hpriv]
    refine .of_supervisor (sret_status_off _) fun a hne _ => if_neg hne
  | mret hword hpriv he =>
    rcases hp with h | h <;> rw [h] at hpriv <;> exact absurd hpriv (by decide)

/-- Interrupts taken in M stay in M. -/
theorem check_interrupts_m {cpu : Cpu} (h : cpu.priviledge = mMode) :
    (cpuCheckInterrupts cpu).priviledge = mMode := by
  rw [check_interrupts_eq]
  cases hs : selected cpu with
  | none => exact h
  | some n =>
    dsimp only
    rw [raise_interrupt_eq _ (selected_lt hs), if_neg]
    · rfl
    · rintro ⟨hlt, _⟩
      rw [h] at hlt
      exact absurd hlt (by decide)

theorem check_interrupts_isolated {cpu : Cpu} (h : (cpuCheckInterrupts cpu).priviledge ≠ mMode) :
    Isolated cpu (cpuCheckInterrupts cpu) := by
  rw [check_interrupts_eq] at h ⊢
  cases hs : selected cpu with
  | none => exact .of_csrs rfl
  | some n =>
    rw [hs] at h
    dsimp only at h ⊢
    rw [raise_interrupt_eq _ (selected_lt hs)] at h ⊢
    split at h
    · rename_i hd
      rw [if_pos hd]
      exact trap_to_s_isolated _ _ _
    · exact absurd rfl h

/-- The same for the whole instruction or exception, counters included. -/
theorem processed_isolated {vm : Vm}
    (hp : vm.cpu.priviledge = uMode ∨ vm.cpu.priviledge = sMode)
    (hd : (processed vm).cpu.priviledge ≠ mMode) :
    ∃ cpu, Isolated (beginStep vm.cpu) cpu ∧
      (∀ a, a ≠ csrMinstret → (processed vm).cpu.csrs a = cpu.csrs a) ∧
      ((processed vm).cpu.csrs csrMinstret = cpu.csrs csrMinstret ∨
        (processed vm).cpu.csrs csrMinstret = cpu.csrs csrMinstret + 1) := by
  rcases step_cases vm with ⟨_, hf, _⟩ | ⟨bus, p, done, _, hx, hr, _⟩
  · rw [hf] at hd ⊢
    exact ⟨_, raise_exception_isolated hd, fun _ _ => rfl, Or.inl rfl⟩
  · rw [hr, retire_priviledge] at hd
    have hdone : Isolated (fetched vm bus).cpu done.cpu := executes_isolated hp hx hd
    refine ⟨done.cpu, hdone, fun a ha => ?_, ?_⟩
    · rw [hr, retire_csrs done ha]
    · rw [hr, retire_cpu]
      split
      · exact Or.inl rfl
      · exact Or.inr rfl

/-- The interrupt check of a step that ends below M. -/
theorem step_isolated {vm : Vm} (h : (cpuStep vm).cpu.priviledge ≠ mMode) :
    (processed vm).cpu.priviledge ≠ mMode ∧ Isolated (processed vm).cpu (cpuStep vm).cpu := by
  cases hw : fetchedWord vm with
  | none =>
    rw [(step_of_fault hw).1] at h ⊢
    exact ⟨h, .of_csrs rfl⟩
  | some word =>
    rw [step_of_word hw] at h ⊢
    have hc : (cpuCheckInterrupts (processed vm).cpu).priviledge ≠ mMode := h
    refine ⟨fun hm => hc (check_interrupts_m hm), ?_⟩
    exact (check_interrupts_isolated hc).trans (.of_csrs rfl)

/-- An instruction executed in U that does not trap changes no CSR. -/
theorem user_csrs {vm done : Vm} {word : BitVec 32} (hp : vm.cpu.priviledge = uMode)
    (hx : Executes vm word done) (ht : done.cpu.trapTaken = false) :
    done.cpu.csrs = vm.cpu.csrs := by
  cases executes_control hx with
  | plain hcsrs hpriv htaken => exact hcsrs
  | trap he =>
    rw [he, raise_exception_cpu, raise_exception_taken] at ht
    cases ht
  | csr addr new cpu hreq hcan hw hcsrs hpriv htaken =>
    rw [hp, user_writes_none (writes_implemented hw)] at hcan
    cases hcan
  | sret hword hpriv he => exact absurd hp hpriv
  | mret hword hpriv he =>
    rw [hp] at hpriv
    exact absurd hpriv (by decide)

/-- Machine state is isolated from U and S: a step that starts and ends there
changes no CSR of M beyond what the supervisor views share, and a step of U
that does not trap changes none but the two counters. -/
theorem machine_state_isolated (vm : Vm)
    (hs : vm.cpu.priviledge = uMode ∨ vm.cpu.priviledge = sMode)
    (he : (cpuStep vm).cpu.priviledge = uMode ∨ (cpuStep vm).cpu.priviledge = sMode) :
    (∀ a ∈ machineCsrs, (cpuStep vm).cpu.csrs a = vm.cpu.csrs a) ∧
    EqOff sstatusWriteMask ((cpuStep vm).cpu.csrs csrMstatus) (vm.cpu.csrs csrMstatus) ∧
    EqOff (supervisorInterruptMask &&& vm.cpu.csrs csrMideleg) ((cpuStep vm).cpu.csrs csrMie)
      (vm.cpu.csrs csrMie) ∧
    EqOff (supervisorInterruptMask &&& vm.cpu.csrs csrMideleg) ((cpuStep vm).cpu.csrs csrMip)
      (vm.cpu.csrs csrMip) ∧
    (cpuStep vm).cpu.csrs csrMcycle = vm.cpu.csrs csrMcycle + 1 ∧
    ((cpuStep vm).cpu.csrs csrMinstret = vm.cpu.csrs csrMinstret ∨
      (cpuStep vm).cpu.csrs csrMinstret = vm.cpu.csrs csrMinstret + 1) ∧
    (vm.cpu.priviledge = uMode → (cpuStep vm).cpu.priviledge = uMode →
      (processed vm).cpu.trapTaken = false → interruptTaken vm = none →
      ∀ a, a ≠ csrMcycle → a ≠ csrMinstret → (cpuStep vm).cpu.csrs a = vm.cpu.csrs a) := by
  have hend : (cpuStep vm).cpu.priviledge ≠ mMode := by
    rcases he with h | h <;> rw [h] <;> decide
  obtain ⟨hproc, hlast⟩ := step_isolated hend
  obtain ⟨cpu, hfirst, hsame, hcount⟩ := processed_isolated hs hproc
  have hbegin : ∀ a, a ≠ csrMcycle → (beginStep vm.cpu).csrs a = vm.cpu.csrs a :=
    fun a ha => if_neg ha
  have hother : ∀ a ∈ machineCsrs, a ≠ csrMcycle ∧ a ≠ csrMinstret := by
    intro a ha
    refine ⟨?_, ?_⟩ <;> rintro rfl <;> exact absurd ha (by decide)
  have hdeleg : (processed vm).cpu.csrs csrMideleg = vm.cpu.csrs csrMideleg :=
    (hsame _ (by decide)).trans (hfirst.machine _ (by decide))
  have hmie := hlast.mie
  have hmip := hlast.mip
  rw [hdeleg] at hmie hmip
  rw [hsame csrMie (by decide)] at hmie
  rw [hsame csrMip (by decide)] at hmip
  have hmstatus := hlast.mstatus
  rw [hsame csrMstatus (by decide)] at hmstatus
  refine ⟨fun a ha => ?_, hmstatus.trans hfirst.mstatus, hmie.trans hfirst.mie,
    hmip.trans hfirst.mip, ?_, ?_, ?_⟩
  · rw [hlast.machine a ha, hsame a (hother a ha).2, hfirst.machine a ha, hbegin a (hother a ha).1]
  · rw [hlast.counters _ (by decide), hsame _ (by decide), hfirst.counters _ (by decide)]
    rfl
  · have hstart : cpu.csrs csrMinstret = vm.cpu.csrs csrMinstret :=
      hfirst.counters _ (by decide)
    rw [hlast.counters _ (by decide), ← hstart]
    exact hcount
  · intro hu _ ht hi a hcycle hinst
    obtain ⟨written, hcpu⟩ := step_cpu_eq vm
    rw [hi] at hcpu
    rw [hcpu]
    rcases step_cases vm with ⟨_, hf, _⟩ | ⟨bus, p, done, _, hx, hr, _⟩
    · rw [hf, raise_exception_cpu, raise_exception_taken] at ht
      cases ht
    · rw [hr, retire_taken] at ht
      have hdone : done.cpu.csrs = (fetched vm bus).cpu.csrs := user_csrs hu hx ht
      dsimp only
      rw [hr, retire_csrs done hinst, hdone]
      exact hbegin a hcycle

/-- The environment call of a user whose calls go to S. -/
def delegatedEcall : Vm :=
  { userEcall with cpu :=
    { userEcall.cpu with csrs := fun a => if a = csrMedeleg then 0x100 else 0 } }

theorem delegated_ecall_keeps_mepc :
    (cpuStep delegatedEcall).cpu.csrs csrMepc = delegatedEcall.cpu.csrs csrMepc :=
  (machine_state_isolated delegatedEcall (by decide) (by decide)).1 csrMepc (by decide)

end RiscvVm.Proofs
