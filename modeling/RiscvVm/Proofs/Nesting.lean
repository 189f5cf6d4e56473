import RiscvVm.Proofs.Returns

namespace RiscvVm.Proofs

/-- A trap of any cause, entered from `origin`. -/
inductive Raises (origin : Cpu) : Cpu → Prop
  | exception (cause tvalue : BitVec 64) : Raises origin (raiseException origin cause tvalue)
  | interrupt (cause : BitVec 64) : Raises origin (raiseInterrupt origin cause)

theorem Raises.cases {origin entry : Cpu} (h : Raises origin entry) :
    ∃ cause tvalue, entry = trapToS origin cause tvalue ∨ entry = trapToM origin cause tvalue := by
  cases h with
  | exception cause tvalue =>
    refine ⟨cause, tvalue, ?_⟩
    unfold raiseException
    dsimp only
    split
    · exact .inl rfl
    · exact .inr rfl
  | interrupt cause =>
    refine ⟨(1#64 <<< 63) ||| cause, 0, ?_⟩
    unfold raiseInterrupt
    dsimp only
    split
    · exact .inl rfl
    · exact .inr rfl

theorem Raises.at_m {origin entry : Cpu} (h : Raises origin entry)
    (hm : entry.priviledge = mMode) : ∃ cause tvalue, entry = trapToM origin cause tvalue := by
  obtain ⟨cause, tvalue, rfl | rfl⟩ := h.cases
  · exact absurd hm (by rw [trap_to_s_priviledge]; decide)
  · exact ⟨cause, tvalue, rfl⟩

theorem Raises.at_s {origin entry : Cpu} (h : Raises origin entry)
    (hs : entry.priviledge = sMode) : ∃ cause tvalue, entry = trapToS origin cause tvalue := by
  obtain ⟨cause, tvalue, rfl | rfl⟩ := h.cases
  · exact ⟨cause, tvalue, rfl⟩
  · exact absurd hs (by rw [trap_to_m_priviledge]; decide)

/-- Execution goes on where it was interrupted, with the interrupts of that
level enabled as they were. -/
structure Resumed (origin cpu : Cpu) (enable : Nat) : Prop where
  pc : cpu.pc = origin.pc
  priviledge : cpu.priviledge = origin.priviledge
  enabled : (cpu.csrs csrMstatus).getLsbD enable = (origin.csrs csrMstatus).getLsbD enable

/-- MRET undoes the entry at M, but for MPIE and MPP. -/
theorem mret_after_m (origin : Cpu) : mretStatus (mTrapStatus origin) =
    setBit (setBit (setBit (origin.csrs csrMstatus) 7 true) 11 false) 12 false := by
  apply BitVec.eq_of_getLsbD_eq
  intro i hi
  simp (disch := omega) only [mret_status_get, m_trap_status_get, set_bit_get]
  by_cases h3 : i = 3
  · subst h3
    rfl
  · simp only [if_neg h3]
    split
    · rfl
    split
    · rfl
    split
    · rfl
    · rfl

/-- SRET undoes the entry at S, but for SPIE and SPP. -/
theorem sret_after_s (origin : Cpu) : sretStatus (sTrapStatus origin) =
    setBit (setBit (origin.csrs csrMstatus) 5 true) 8 false := by
  apply BitVec.eq_of_getLsbD_eq
  intro i hi
  simp (disch := omega) only [sret_status_get, s_trap_status_get, set_bit_get]
  by_cases h1 : i = 1
  · subst h1
    rfl
  · simp only [if_neg h1]
    split
    · rfl
    split
    · rfl
    · rfl

/-- What a trap to S has saved of the interrupted execution. -/
structure InContext (origin cpu : Cpu) : Prop where
  sepc : cpu.csrs csrSepc = origin.pc
  spp : (cpu.csrs csrMstatus).getLsbD 8 = origin.priviledge.getLsbD 0
  spie : (cpu.csrs csrMstatus).getLsbD 5 = (origin.csrs csrMstatus).getLsbD 1

section
variable {origin : Cpu} {vm : Vm}

theorem m_return (hp : origin.priviledge ≤ mMode) (hret : Mrets vm)
    (hstatus : vm.cpu.csrs csrMstatus = mTrapStatus origin)
    (hepc : vm.cpu.csrs csrMepc = origin.pc) :
    Resumed origin (processed vm).cpu 3 ∧ (processed vm).cpu.csrs csrMstatus =
      setBit (setBit (setBit (origin.csrs csrMstatus) 7 true) 11 false) 12 false := by
  have hdone := hret.returned
  rw [hstatus, hepc, mret_after_m] at hdone
  refine ⟨⟨hdone.pc, ?_, ?_⟩, hdone.mstatus⟩
  · rw [hdone.priviledge, mpp_after_m hp]
  · rw [hdone.mstatus]
    simp (disch := omega) only [set_bit_get]
    rfl

/-- SRET from any state that holds this resumes what was interrupted. -/
theorem InContext.resumes (h : InContext origin vm.cpu)
    (hp : origin.priviledge = uMode ∨ origin.priviledge = sMode) (hret : Srets vm) :
    Resumed origin (processed vm).cpu 1 := by
  have hdone := hret.returned
  refine ⟨hdone.pc.trans h.sepc, ?_, ?_⟩
  · rw [hdone.priviledge, h.spp]
    rcases hp with hu | hs
    · rw [hu]
      rfl
    · rw [hs]
      rfl
  · rw [hdone.mstatus, sret_status_get]
    exact h.spie

theorem in_context_entry {cpu : Cpu} (hstatus : cpu.csrs csrMstatus = sTrapStatus origin)
    (hepc : cpu.csrs csrSepc = origin.pc) : InContext origin cpu := by
  refine ⟨hepc, ?_, ?_⟩
  · rw [hstatus, s_trap_status_get]
    rfl
  · rw [hstatus, s_trap_status_get]
    rfl

end

/-- What a handler must leave alone for its trap to be returned from. -/
structure Kept (before after : Cpu) : Prop where
  priviledge : after.priviledge = before.priviledge
  mstatus : after.csrs csrMstatus = before.csrs csrMstatus
  mepc : after.csrs csrMepc = before.csrs csrMepc
  sepc : after.csrs csrSepc = before.csrs csrSepc

/-- A step of a handler, which takes no trap, is no trap return and writes none
of mstatus, sstatus, mepc and sepc. -/
structure HandlerStep (vm : Vm) : Prop where
  untrapped : (cpuStep vm).cpu.trapTaken = false
  sret : ¬ Srets vm
  mret : ¬ Mrets vm
  spares : ∀ a ∈ [csrMstatus, csrSstatus, csrMepc, csrSepc], ∀ value, ¬ WritesCsr vm a value

theorem Kept.trans {a b c : Cpu} (h : Kept a b) (g : Kept b c) : Kept a c :=
  ⟨g.priviledge.trans h.priviledge, g.mstatus.trans h.mstatus, g.mepc.trans h.mepc,
    g.sepc.trans h.sepc⟩

/-- Counting keeps all of it. -/
theorem Kept.of_csrs {before after : Cpu} (hp : after.priviledge = before.priviledge)
    (hcsrs : ∀ a, a ≠ csrMcycle → a ≠ csrMinstret → after.csrs a = before.csrs a) :
    Kept before after :=
  ⟨hp, hcsrs _ (by decide) (by decide), hcsrs _ (by decide) (by decide),
    hcsrs _ (by decide) (by decide)⟩

theorem writes_kept {cpu cpu' : Cpu} {addr : BitVec 12} {value : BitVec 64}
    (h : Writes cpu addr value cpu') (ha : addr ∉ [csrMstatus, csrSstatus, csrMepc, csrSepc]) :
    Kept cpu cpu' := by
  simp only [List.mem_cons, List.not_mem_nil, or_false, not_or] at ha
  obtain ⟨hm, hs, hmepc, hsepc⟩ := ha
  refine ⟨?_, ?_, h.other (Ne.symm hmepc) (by decide), h.other (Ne.symm hsepc) (by decide)⟩
  · rw [writes_eq h]
  · cases h with
    | misa ha => rfl
    | mtvec ha => rfl
    | stvec ha => rfl
    | sstatus ha => exact absurd ha hs
    | sie ha => rfl
    | sip ha => rfl
    | masked himp hw => exact if_neg (Ne.symm hm)

theorem HandlerStep.kept {vm : Vm} (h : HandlerStep vm) : Kept vm.cpu (cpuStep vm).cpu := by
  have hquiet := h.untrapped
  rcases step_cases vm with ⟨_, hp, hs⟩ | ⟨bus, p, done, ht, hx, hp, hs⟩
  · rw [hs, hp, raise_exception_cpu, raise_exception_taken] at hquiet
    cases hquiet
  rw [hs, hp] at hquiet ⊢
  have hword : fetchedWord vm = some (vmBusRead32 bus p) := by rw [fetchedWord, ht]
  obtain ⟨htaken, hpriv, hcsrs⟩ := finish_untrapped hquiet
  have hbegin : Kept vm.cpu (fetched vm bus).cpu :=
    .of_csrs rfl fun a hc _ => begin_csrs vm.cpu hc
  have hend : Kept done.cpu (finish (retire done)).cpu := by
    refine .of_csrs hpriv fun a _ hi => ?_
    rw [hcsrs, set_csr_csrs, if_neg hi]
  refine (hbegin.trans ?_).trans hend
  cases executes_control hx with
  | plain hsame hsamep _ => exact .of_csrs hsamep fun a _ _ => by rw [hsame]
  | trap he =>
    rw [he, raise_exception_cpu, raise_exception_taken] at htaken
    cases htaken
  | csr addr new cpu hreq hcan hw hsame hsamep _ =>
    have hkept : Kept (fetched vm bus).cpu cpu :=
      writes_kept hw fun hmem => h.spares addr hmem new ⟨bus, p, ht, hreq, hcan⟩
    refine hkept.trans (.of_csrs ?_ fun a _ _ => by rw [hsame])
    rw [hsamep, hkept.priviledge]
  | sret hsret hne _ => exact absurd ⟨⟨_, hword, hsret⟩, hne⟩ h.sret
  | mret hmret hm _ => exact absurd ⟨⟨_, hword, hmret⟩, hm⟩ h.mret

/-- The next state of the CPU alone or of the whole machine. -/
def Next (vm next : Vm) : Prop := next = cpuStep vm ∨ ∃ host, next = mainLoop vm host

theorem HandlerStep.next_kept {vm next : Vm} (h : HandlerStep vm) (hn : Next vm next) :
    Kept vm.cpu next.cpu := by
  rcases hn with rfl | ⟨host, rfl⟩
  · exact h.kept
  · refine tick_keeps (fun hk _ => ?_) h.kept host
    rw [set_pending_eq]
    exact hk.trans ⟨rfl, rfl, rfl, rfl⟩

/-- The run of a handler. -/
inductive Handles (first : Vm) : Vm → Prop
  | start : Handles first first
  | step {vm next : Vm} (run : Handles first vm) (h : HandlerStep vm) (hn : Next vm next) :
      Handles first next

theorem Handles.kept {first last : Vm} (h : Handles first last) : Kept first.cpu last.cpu := by
  induction h with
  | start => exact ⟨rfl, rfl, rfl, rfl⟩
  | step run hstep hn ih => exact ih.trans (hstep.next_kept hn)

/-- The states of a handler at S for the trap entered from `origin`: after the
entry, after each of its steps, and after each trap to M on the way, whose
handler ends with MRET. -/
inductive SHandler (origin : Cpu) : Vm → Prop
  | entered {entry : Cpu} {vm : Vm} (h : Raises origin entry) (hs : entry.priviledge = sMode)
      (hk : Kept entry vm.cpu) : SHandler origin vm
  | step {vm next : Vm} (run : SHandler origin vm) (h : HandlerStep vm) (hn : Next vm next) :
      SHandler origin next
  | nested {vm first last next : Vm} {cpu entry : Cpu} (run : SHandler origin vm)
      (hk : Kept vm.cpu cpu) (h : Raises cpu entry) (hm : entry.priviledge = mMode)
      (hfirst : Kept entry first.cpu) (handler : Handles first last) (hret : Mrets last)
      (hnext : Kept (processed last).cpu next.cpu) : SHandler origin next

theorem InContext.kept {origin cpu cpu' : Cpu} (h : InContext origin cpu) (hk : Kept cpu cpu') :
    InContext origin cpu' := by
  refine ⟨hk.sepc.trans h.sepc, ?_, ?_⟩
  · rw [hk.mstatus]
    exact h.spp
  · rw [hk.mstatus]
    exact h.spie

/-- A trap to M and its return keep what the trap to S has saved. -/
theorem InContext.nested {origin cpu entry : Cpu} {first last : Vm} (h : InContext origin cpu)
    (hs : cpu.priviledge = sMode) (hr : Raises cpu entry) (hm : entry.priviledge = mMode)
    (hfirst : Kept entry first.cpu) (handler : Handles first last) (hret : Mrets last) :
    InContext origin (processed last).cpu ∧ (processed last).cpu.priviledge = sMode := by
  obtain ⟨cause, tvalue, rfl⟩ := hr.at_m hm
  have hlast := hfirst.trans handler.kept
  have hle : cpu.priviledge ≤ mMode := hs ▸ (by decide)
  obtain ⟨hres, hstatus⟩ := m_return hle hret hlast.mstatus hlast.mepc
  refine ⟨⟨?_, ?_, ?_⟩, hres.priviledge.trans hs⟩
  · rw [hret.returned.others _ (by decide), hlast.sepc]
    exact h.sepc
  · rw [hstatus]
    simp (disch := omega) only [set_bit_get]
    exact h.spp
  · rw [hstatus]
    simp (disch := omega) only [set_bit_get]
    exact h.spie

theorem SHandler.context {origin : Cpu} {vm : Vm} (h : SHandler origin vm) :
    InContext origin vm.cpu ∧ vm.cpu.priviledge = sMode := by
  induction h with
  | entered hr hs hk =>
    obtain ⟨cause, tvalue, rfl⟩ := hr.at_s hs
    exact ⟨in_context_entry hk.mstatus hk.sepc, hk.priviledge.trans hs⟩
  | step run hstep hn ih =>
    have hk := hstep.next_kept hn
    exact ⟨ih.1.kept hk, hk.priviledge.trans ih.2⟩
  | nested run hk hr hm hfirst handler hret hnext ih =>
    have hat : InContext origin _ ∧ _ :=
      (ih.1.kept hk).nested (hk.priviledge.trans ih.2) hr hm hfirst handler hret
    exact ⟨hat.1.kept hnext, hnext.priviledge.trans hat.2⟩

/-- MRET and SRET undo the entry of any trap at their level up to the saved
fields of mstatus, and SRET does so also after traps to M with their returns. -/
theorem trap_entry_return (origin : Cpu) :
    (∀ entry vm, origin.priviledge ∈ [uMode, sMode, mMode] → Raises origin entry →
      entry.priviledge = mMode → Mrets vm → vm.cpu.csrs csrMstatus = entry.csrs csrMstatus →
      vm.cpu.csrs csrMepc = entry.csrs csrMepc →
      Resumed origin (processed vm).cpu 3 ∧ (processed vm).cpu.csrs csrMstatus =
        setBit (setBit (setBit (origin.csrs csrMstatus) 7 true) 11 false) 12 false) ∧
    (∀ entry vm, origin.priviledge ∈ [uMode, sMode] → Raises origin entry →
      entry.priviledge = sMode → Srets vm → vm.cpu.csrs csrMstatus = entry.csrs csrMstatus →
      vm.cpu.csrs csrSepc = entry.csrs csrSepc →
      Resumed origin (processed vm).cpu 1 ∧ (processed vm).cpu.csrs csrMstatus =
        setBit (setBit (origin.csrs csrMstatus) 5 true) 8 false) ∧
    ∀ vm, origin.priviledge ∈ [uMode, sMode] → SHandler origin vm → Srets vm →
      Resumed origin (processed vm).cpu 1 := by
  refine ⟨fun entry vm hp hr hm hret hstatus hepc => ?_,
    fun entry vm hp hr hs hret hstatus hepc => ?_, fun vm hp h hret => ?_⟩
  · obtain ⟨cause, tvalue, rfl⟩ := hr.at_m hm
    have hle : origin.priviledge ≤ mMode := by
      simp only [List.mem_cons, List.not_mem_nil, or_false] at hp
      rcases hp with h | h | h <;> rw [h] <;> decide
    exact m_return hle hret hstatus hepc
  · obtain ⟨cause, tvalue, rfl⟩ := hr.at_s hs
    have hlow : origin.priviledge = uMode ∨ origin.priviledge = sMode := by simpa using hp
    have hsaved : InContext origin vm.cpu := in_context_entry hstatus hepc
    refine ⟨hsaved.resumes hlow hret, ?_⟩
    have hdone := hret.returned.mstatus
    rw [hstatus] at hdone
    exact hdone.trans (sret_after_s origin)
  · have hlow : origin.priviledge = uMode ∨ origin.priviledge = sMode := by simpa using hp
    exact h.context.1.resumes hlow hret

/-- `mret; sret` where the traps to M go. -/
def returnsProgram : Bus := busOf (ramOf [(0, 0x1020007330200073)])

/-- U before an ECALL that is delegated to S. -/
def userCall : Cpu :=
  { (cpuReset cpuInit memBase).setCsr csrMedeleg 0x100 with
    priviledge := uMode, pc := 0x80000100 }

/-- Its handler at S, just before its SRET. -/
def beforeSret : Vm :=
  { cpu := { raiseException userCall excEcallUMode 0 with pc := 0x80000004 }, bus := returnsProgram }

/-- A timer interrupt there goes to M, where MRET is all its handler does. -/
def beforeMret : Vm := { beforeSret with cpu := raiseInterrupt beforeSret.cpu 7 }

theorem user_call_resumed : Resumed userCall (processed (processed beforeMret)).cpu 1 := by
  have hentry : SHandler userCall beforeSret :=
    .entered (.exception excEcallUMode 0) (by decide) ⟨rfl, rfl, rfl, rfl⟩
  have hmret : Mrets beforeMret := ⟨⟨0x30200073, by decide, rfl, rfl, rfl⟩, by decide⟩
  have hback : SHandler userCall (processed beforeMret) :=
    .nested hentry ⟨rfl, rfl, rfl, rfl⟩ (.interrupt 7) (by decide) ⟨rfl, rfl, rfl, rfl⟩
      .start hmret ⟨rfl, rfl, rfl, rfl⟩
  exact (trap_entry_return userCall).2.2 _ (by decide) hback
    ⟨⟨0x10200073, by decide, rfl, rfl, rfl⟩, by decide⟩

end RiscvVm.Proofs
