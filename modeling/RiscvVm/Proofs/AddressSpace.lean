import RiscvVm.Proofs.Isolation

namespace RiscvVm.Proofs
open Bits

/-- The MODE field of a value of satp. -/
def satpModeOf (satp : BitVec 64) : BitVec 64 := (satp >>> 60) &&& 0xF

/-- Bare or Sv39. -/
def KnownMode (satp : BitVec 64) : Prop := satpModeOf satp = 0 ∨ satpModeOf satp = 8

instance (satp : BitVec 64) : Decidable (KnownMode satp) := inferInstanceAs (Decidable (_ ∨ _))

/-- The step writes satp a value with a MODE that is not implemented. -/
def WritesUnknownMode (vm : Vm) : Prop :=
  ∃ value, WritesCsr vm csrSatp value ∧ ¬ KnownMode value

/-- Nothing but a CSR write to satp changes satp, and that takes any value. -/
theorem writes_satp {cpu cpu' : Cpu} {addr : BitVec 12} {value : BitVec 64}
    (h : Writes cpu addr value cpu') :
    cpu'.csrs csrSatp = if addr = csrSatp then value else cpu.csrs csrSatp := by
  split
  · rename_i ha
    subst ha
    have hmask : (csrTable csrSatp).writeMask = BitVec.allOnes 64 := rfl
    rw [h.named rfl, hmask, blend_allOnes]
  · rename_i ha
    exact h.other (fun h => ha h.symm) (by decide)

theorem satp_kept {vm : Vm} (h : KnownMode (vm.cpu.csrs csrSatp)) (hok : ¬ WritesUnknownMode vm) :
    KeptBy (fun cpu => KnownMode (cpu.csrs csrSatp)) vm := by
  refine slot_kept vm (by decide) h fun hwrite hw => ?_
  rw [writes_satp hw]
  split
  · rename_i ha
    subst ha
    exact Decidable.byContradiction fun hno => hok ⟨_, hwrite, hno⟩
  · exact h

/-- Such a write is not refused: the MODE stays in satp. -/
theorem unknown_mode_sticks {vm : Vm} (h : WritesUnknownMode vm) :
    ¬ KnownMode ((cpuStep vm).cpu.csrs csrSatp) := by
  obtain ⟨value, hwrite, hno⟩ := h
  obtain ⟨cpu, hw, hcsrs⟩ := writes_csr_done hwrite rfl
  have hvalue : (processed vm).cpu.csrs csrSatp = value := by
    rw [hcsrs csrSatp (by decide), writes_satp hw, if_pos rfl]
  have hinv := slot_invariant (a := csrSatp) (Q := fun satp => ¬ KnownMode satp) (by decide)
  refine hinv.finish ?_
  rwa [hvalue]

/-- As long as no step writes satp a MODE that is not implemented, its MODE is
Bare or Sv39 in every state of every run and no access meets another one; a
step that does write one leaves it there. -/
theorem satp_mode_known {vm : Vm} (h : GuardedRun (fun vm => ¬ WritesUnknownMode vm) vm) :
    (satpMode vm.cpu = 0 ∨ satpMode vm.cpu = 8) ∧
      (∀ bus va acc, translateAddress vm.cpu bus va acc = (bus, .ok va) ∨
        translateAddress vm.cpu bus va acc =
          sv39 vm.cpu bus va acc (effectivePriviledge vm.cpu acc)) ∧
      (WritesUnknownMode vm →
        ¬ (satpMode (cpuStep vm).cpu = 0 ∨ satpMode (cpuStep vm).cpu = 8)) := by
  have hinv := slot_invariant (a := csrSatp) (Q := KnownMode) (by decide)
  have hmode : KnownMode (vm.cpu.csrs csrSatp) := by
    refine hinv.run (by decide) (fun h _ => ?_) satp_kept h
    rw [set_pending_eq]
    exact h
  refine ⟨hmode, fun bus va acc => ?_, unknown_mode_sticks⟩
  unfold translateAddress
  dsimp only
  split
  · exact Or.inl rfl
  · rename_i hno
    have h8 : satpMode vm.cpu = 8 := hmode.resolve_left fun h0 => hno (Or.inl h0)
    rw [if_pos h8]
    exact Or.inr rfl

/-- A start that turns Sv39 on. -/
theorem satp_mode_startup : satpMode (quietly 15 (vmInit startup)).cpu = 0 ∨
    satpMode (quietly 15 (vmInit startup)).cpu = 8 := by
  have hasked : ∀ k < 15, (stepWrite (quietly k (vmInit startup))).all
      (fun w => decide (w.1 = csrSatp → KnownMode w.2)) = true := by decide +kernel
  refine (satp_mode_known (quietly_guarded startup fun k hk => ?_)).1
  rintro ⟨value, hwrite, hunknown⟩
  exact hunknown (hwrite.meets (hasked k hk) rfl)

/-- `addi x1, x0, -1; csrw satp, x1`. -/
def unknownMode : Memory := ramOf [(0, 0x18009073FFF00093)]

/-- After it the MODE is 15. -/
theorem unknown_mode_reached : ∃ vm, Reachable vm ∧ satpMode vm.cpu = 15 :=
  ⟨_, .iterate _ .quiet (.iterate _ .quiet (.init unknownMode)), by decide⟩

/-- MPRV and TVM, which neither traps nor trap returns touch. -/
def sticky : List Nat := [17, 20]

section
variable {i : Nat}

theorem sticky_cases (hi : i ∈ sticky) : i = 17 ∨ i = 20 := by simpa [sticky] using hi

theorem sticky_bit_invariant (hi : i ∈ sticky) (b : Bool) :
    ControlInvariant fun cpu => (cpu.csrs csrMstatus).getLsbD i = b := by
  refine ⟨fun h hcsrs _ => ?_, fun h ha => ?_, fun h _ => ?_, fun h => ?_⟩
  · rwa [hcsrs]
  · rw [set_csr_csrs, if_neg]
    · exact h
    · rcases ha with rfl | rfl <;> decide
  · rw [trap_to_s_csrs, if_pos rfl, s_trap_status_get]
    rcases sticky_cases hi with rfl | rfl <;> exact h
  · rw [trap_to_m_csrs, if_pos rfl, m_trap_status_get]
    rcases sticky_cases hi with rfl | rfl <;> exact h

theorem sticky_returns (hi : i ∈ sticky) (cpu : Cpu) :
    ((sretCpu cpu).csrs csrMstatus).getLsbD i = (cpu.csrs csrMstatus).getLsbD i ∧
      ((mretCpu cpu).csrs csrMstatus).getLsbD i = (cpu.csrs csrMstatus).getLsbD i := by
  have hs := sret_status_get (cpu.csrs csrMstatus) i
  have hm := mret_status_get (cpu.csrs csrMstatus) i
  rcases sticky_cases hi with rfl | rfl
  · exact ⟨hs, hm⟩
  · exact ⟨hs, hm⟩

/-- A step changes these bits only by writing mstatus. -/
theorem sticky_step {vm : Vm} (hi : i ∈ sticky) (hno : ∀ value, ¬ WritesCsr vm csrMstatus value) :
    ((cpuStep vm).cpu.csrs csrMstatus).getLsbD i = (vm.cpu.csrs csrMstatus).getLsbD i := by
  have hinv := sticky_bit_invariant hi ((vm.cpu.csrs csrMstatus).getLsbD i)
  have hbegin : ((beginStep vm.cpu).csrs csrMstatus).getLsbD i =
      (vm.cpu.csrs csrMstatus).getLsbD i := rfl
  refine hinv.step rfl ⟨fun {addr value cpu} hwrite hw => ?_, fun _ => ?_, fun _ => ?_⟩
  · have hne : addr ≠ csrMstatus := by
      rintro rfl
      exact hno value hwrite
    rw [(hw.mstatus hne).bit]
    · exact hbegin
    · rcases sticky_cases hi with rfl | rfl <;> omega
    · rcases sticky_cases hi with rfl | rfl <;> decide
  · exact (sticky_returns hi _).1.trans hbegin
  · exact (sticky_returns hi _).2.trans hbegin

end

/-- Below M no step writes mstatus. -/
theorem low_spares_mstatus {vm : Vm} (hle : vm.cpu.priviledge ≤ mMode)
    (hlow : vm.cpu.priviledge ≠ mMode) (value : BitVec 64) : ¬ WritesCsr vm csrMstatus value := by
  rintro ⟨bus, p, _, _, hcan⟩
  exact hlow (can_write_machine hle (by decide) hcan)

def mprv (cpu : Cpu) : Bool := (cpu.csrs csrMstatus).getLsbD 17

/-- The step returns to a mode below M with MPRV set. -/
def ReturnsWithMprv (vm : Vm) : Prop :=
  mprv vm.cpu = true ∧
    (Srets vm ∨ (Mrets vm ∧ mppOf (vm.cpu.csrs csrMstatus) ≠ mMode))

structure MprvConfined (cpu : Cpu) : Prop where
  le : cpu.priviledge ≤ mMode
  clear : cpu.priviledge ≠ mMode → mprv cpu = false

theorem mprv_invariant : ControlInvariant MprvConfined := by
  have hbit := fun b => sticky_bit_invariant (i := 17) (by decide) b
  refine ⟨fun h hcsrs hpriv => ⟨?_, fun hlow => ?_⟩, fun h ha => ⟨h.le, fun hlow => ?_⟩,
    fun h hlt => ⟨(by decide : sMode ≤ mMode), fun _ => ?_⟩, fun h => ⟨BitVec.le_refl _, fun hm => absurd rfl hm⟩⟩
  · rw [hpriv]
    exact h.le
  · rw [hpriv] at hlow
    exact (hbit false).congr (h.clear hlow) hcsrs hpriv
  · exact (hbit false).count (h.clear hlow) ha
  · have hlow : _ ≠ mMode := fun he => absurd (he ▸ hlt) (BitVec.lt_irrefl _)
    exact (hbit false).toS (h.clear hlow) hlt

theorem mprv_kept {vm : Vm} (h : MprvConfined vm.cpu) (hok : ¬ ReturnsWithMprv vm) :
    KeptBy MprvConfined vm := by
  refine ⟨fun {addr value cpu} hwrite hw => ?_, fun hs => ⟨?_, fun _ => ?_⟩,
    fun hm => ⟨mpp_le _, fun hlow => ?_⟩⟩
  · have hpriv : cpu.priviledge = vm.cpu.priviledge := by
      rw [writes_eq hw]
      rfl
    refine ⟨?_, fun hlow => ?_⟩
    · rw [hpriv]
      exact h.le
    · rw [hpriv] at hlow
      have hne : addr ≠ csrMstatus := by
        rintro rfl
        exact low_spares_mstatus h.le hlow value hwrite
      exact ((hw.mstatus hne).bit (by omega) (by decide)).trans (h.clear hlow)
  · unfold sretCpu
    dsimp only
    split <;> decide
  · have hkept := (sticky_returns (i := 17) (by decide) (beginStep vm.cpu)).1
    refine hkept.trans (Bool.eq_false_iff.mpr fun ht => hok ⟨ht, Or.inl hs⟩)
  · have hkept := (sticky_returns (i := 17) (by decide) (beginStep vm.cpu)).2
    refine hkept.trans (Bool.eq_false_iff.mpr fun ht => hok ⟨ht, Or.inr ⟨hm, hlow⟩⟩)

theorem guarded_mprv {vm : Vm} (h : GuardedRun (fun vm => ¬ ReturnsWithMprv vm) vm) :
    MprvConfined vm.cpu := by
  refine mprv_invariant.run ⟨by decide, fun hm => absurd rfl hm⟩ (fun h _ => ?_) mprv_kept h
  rw [set_pending_eq]
  exact ⟨h.le, h.clear⟩

/-- The states of a handler that a trap from `vm` enters in M, while it stays
in M and has not written mstatus. -/
inductive Handling (vm : Vm) : Vm → Prop
  | enter (host : HostTurn) (hlow : vm.cpu.priviledge ≠ mMode)
      (hm : (mainLoop vm host).cpu.priviledge = mMode) : Handling vm (mainLoop vm host)
  | next (m : Vm) (host : HostTurn) (h : Handling vm m)
      (hno : ∀ value, ¬ WritesCsr m csrMstatus value)
      (hm : (mainLoop m host).cpu.priviledge = mMode) : Handling vm (mainLoop m host)

theorem main_loop_mprv {vm : Vm} (host : HostTurn)
    (hno : ∀ value, ¬ WritesCsr vm csrMstatus value) :
    mprv (mainLoop vm host).cpu = mprv vm.cpu := by
  have hstep := sticky_step (i := 17) (by decide) hno
  refine tick_keeps (P := fun cpu => mprv cpu = mprv vm.cpu) (fun h _ => ?_) hstep host
  rw [set_pending_eq]
  exact h

theorem handling_mprv {vm m : Vm} (hvm : MprvConfined vm.cpu) (h : Handling vm m) :
    m.cpu.priviledge = mMode ∧ mprv m.cpu = false := by
  induction h with
  | enter host hlow hm =>
    refine ⟨hm, ?_⟩
    rw [main_loop_mprv host (low_spares_mstatus hvm.le hlow)]
    exact hvm.clear hlow
  | next m host _ hno hm ih =>
    refine ⟨hm, ?_⟩
    rw [main_loop_mprv host hno]
    exact ih.2

/-- In M with MPRV clear nothing is translated. -/
theorem translate_in_machine {cpu : Cpu} (hm : cpu.priviledge = mMode) (hclear : mprv cpu = false)
    (bus : Bus) (va : BitVec 64) (acc : AccessType) :
    effectivePriviledge cpu acc = mMode ∧ translateAddress cpu bus va acc = (bus, .ok va) := by
  have heff : effectivePriviledge cpu acc = mMode := by
    unfold effectivePriviledge
    dsimp only
    rw [if_neg]
    · exact hm
    · rintro ⟨_, _, ht⟩
      exact absurd (hclear.symm.trans ht) (by decide)
  refine ⟨heff, ?_⟩
  unfold translateAddress
  dsimp only
  rw [if_pos (Or.inr heff)]

theorem returns_keep_mprv (m : Vm) (instruction : IType) :
    mprv (mret m instruction).cpu = mprv m.cpu ∧ mprv (sret m instruction).cpu = mprv m.cpu := by
  have hbit := sticky_bit_invariant (i := 17) (by decide) (mprv m.cpu)
  constructor
  · unfold mret
    split
    · exact hbit.exception rfl _ _
    · exact mret_status_get (m.cpu.csrs csrMstatus) 17
  · unfold sret
    split
    · exact hbit.exception rfl _ _
    · exact sret_status_get (m.cpu.csrs csrMstatus) 17

/-- MRET and SRET leave MPRV alone. As long as none of them returns below M
with MPRV set, it is clear below M in every state of every run, and the handler
of a trap from there makes its accesses untranslated and with the privilege of
M. -/
theorem mprv_confined_to_machine {vm : Vm}
    (h : GuardedRun (fun vm => ¬ ReturnsWithMprv vm) vm) :
    (∀ m instruction, mprv (mret m instruction).cpu = mprv m.cpu ∧
      mprv (sret m instruction).cpu = mprv m.cpu) ∧
    (vm.cpu.priviledge ≠ mMode → mprv vm.cpu = false) ∧
      ∀ m, Handling vm m → ∀ bus va acc, effectivePriviledge m.cpu acc = mMode ∧
        translateAddress m.cpu bus va acc = (bus, .ok va) := by
  have hvm := guarded_mprv h
  refine ⟨returns_keep_mprv, hvm.clear, fun m hm bus va acc => ?_⟩
  obtain ⟨hpriv, hclear⟩ := handling_mprv hvm hm
  exact translate_in_machine hpriv hclear bus va acc

/-- `csrw mstatus, x0; mret`. -/
def userReturn : Memory := ramOf [(0, 0x3020007330001073)]

/-- In U after these two, MPRV is clear. -/
theorem mprv_clear_after_return :
    mprv (mainLoop (mainLoop (vmInit userReturn) .quiet) .quiet).cpu = false := by
  have hstart : GuardedRun (fun vm => ¬ ReturnsWithMprv vm)
      (mainLoop (vmInit userReturn) .quiet) := by
    refine .iterate _ .quiet (.init userReturn) ?_
    rintro ⟨hset, _⟩
    exact absurd hset (by decide)
  refine (mprv_confined_to_machine (.iterate _ .quiet hstart ?_)).2.1 (by decide)
  rintro ⟨hset, _⟩
  exact absurd hset (by decide)

/-- `lui x1, 0x20; csrw mstatus, x1; mret`: the value has MPRV set and U in its
MPP field. -/
def leakedMprv : Memory := ramOf [(0, 0x30009073000200B7), (8, 0x30200073)]

/-- Three iterations after reset, MPRV is set in U. -/
theorem mprv_leaks_to_user :
    ∃ vm, Reachable vm ∧ vm.cpu.priviledge = uMode ∧ mprv vm.cpu = true :=
  ⟨_, .iterate _ .quiet (.iterate _ .quiet (.iterate _ .quiet (.init leakedMprv))),
    by decide⟩

/-- A CSR instruction that names satp. -/
def NamesSatp (word : BitVec 32) : Prop :=
  opcodeOf word = Opcode.code .system ∧ funct3Of word ≠ 0 ∧ funct3Of word ≠ 4 ∧
    field word 20 12 = csrSatp

def IsSfenceVma (word : BitVec 32) : Prop :=
  opcodeOf word = Opcode.code .system ∧ funct3Of word = 0 ∧ field word 25 7 = 0x09 ∧ rdOf word = 0

instance (word : BitVec 32) : Decidable (IsSfenceVma word) :=
  inferInstanceAs (Decidable (_ ∧ _ ∧ _ ∧ _))

def tvm (cpu : Cpu) : Bool := (cpu.csrs csrMstatus).getLsbD 20

/-- The step executes a CSR instruction that names satp in S. -/
def AccessesSatp (vm : Vm) : Prop := ExecutesWord vm NamesSatp ∧ vm.cpu.priviledge = sMode

/-- All the step does with the word it fetches is to raise an illegal
instruction exception. -/
def Refused (vm : Vm) (word : BitVec 32) : Prop :=
  ∃ bus p, translateAddress vm.cpu vm.bus vm.cpu.pc .fetch = (bus, .ok p) ∧
    processed vm = (fetched vm bus).illegalInstruction word

/-- States reached by steps that all meet a condition and end below M. -/
inductive BelowMachine (ok : Vm → Prop) (start : Vm) : Vm → Prop
  | start : BelowMachine ok start start
  | step (vm : Vm) (h : BelowMachine ok start vm) (hok : ok vm)
      (hlow : (cpuStep vm).cpu.priviledge ≠ mMode) : BelowMachine ok start (cpuStep vm)

theorem refused_of_dispatch {vm : Vm} {word : BitVec 32} (hword : fetchedWord vm = some word)
    (h : ∀ bus, dispatchInstruction (fetched vm bus) word =
      (fetched vm bus).illegalInstruction word) : Refused vm word := by
  obtain ⟨bus, p, ht, hread⟩ := fetched_word_some hword
  refine ⟨bus, p, ht, ?_⟩
  rw [(step_of_fetch ht).1, hread, h bus]
  exact retire_trapped (raise_exception_taken _ _ _)

/-- SFENCE.VMA is refused in U, and in S when TVM is set. -/
theorem sfence_refused {m : Vm} {word : BitVec 32} (h : IsSfenceVma word)
    (hp : m.cpu.priviledge = uMode ∨ (m.cpu.priviledge = sMode ∧ tvm m.cpu = true)) :
    dispatchInstruction m word = m.illegalInstruction word := by
  obtain ⟨hop, h3, h7, hrd⟩ := h
  rw [dispatch_system_word (of_raw_of_code hop), system_zero_eq m h3, if_pos ⟨h7, hrd⟩]
  unfold sfenceVma
  rcases hp with hu | ⟨hs, ht⟩
  · rw [if_pos hu]
    rfl
  · rw [if_neg (by rw [hs]; decide), if_pos ⟨hs, ht⟩]
    rfl

/-- CSR instructions that name satp are refused in U. -/
theorem satp_refused {m : Vm} {word : BitVec 32} (h : NamesSatp word)
    (hp : m.cpu.priviledge = uMode) :
    dispatchInstruction m word = m.illegalInstruction word := by
  obtain ⟨hop, h0, h4, hfield⟩ := h
  have hop' := of_raw_of_code hop
  have hnone : csrRead m csrSatp = none := by
    unfold csrRead csrCanRead
    rw [hp]
    rfl
  have hwrite : ∀ value, csrWrite m.cpu csrSatp value = none := by
    intro value
    unfold csrWrite
    rw [hp]
    rfl
  have hout := csr_word_outcome m hop' h0 h4
  rw [dispatch_system_word hop']
  generalize dispatchSystem m (decodeI word) = done at hout ⊢
  cases hout with
  | refused => rfl
  | read old hread =>
    rw [hfield, hnone] at hread
    cases hread
  | write new old =>
    unfold finishCsrWrite
    rw [hfield, hwrite]
    rfl

/-- In S they are not. -/
theorem satp_accepted {m : Vm} {word : BitVec 32} (h : NamesSatp word)
    (hp : m.cpu.priviledge = sMode) :
    (dispatchInstruction m word).cpu.trapTaken = m.cpu.trapTaken := by
  obtain ⟨hop, h0, h4, hfield⟩ := h
  have hop' := of_raw_of_code hop
  have hsome : csrRead m csrSatp = some (m.cpu.csrs csrSatp) := by
    unfold csrRead csrCanRead
    rw [hp]
    rfl
  have hout := csr_word_outcome m hop' h0 h4
  rw [dispatch_system_word hop']
  generalize dispatchSystem m (decodeI word) = done at hout ⊢
  cases hout with
  | refused hread =>
    rw [hfield, hsome] at hread
    cases hread
  | read old => exact write_reg_trap_taken _ _ _
  | write new old =>
    have hcan : csrCanWrite csrSatp m.cpu.priviledge = true := by
      rw [hp]
      rfl
    obtain ⟨cpu, hw⟩ := csr_write_some m.cpu new rfl hcan
    have he := writes_eq (csr_write_cases hw).2
    unfold finishCsrWrite
    rw [hfield, hw]
    dsimp only
    rw [write_reg_trap_taken, he]

theorem satp_not_refused {vm : Vm} {word : BitVec 32} (hword : fetchedWord vm = some word)
    (h : NamesSatp word) (hp : vm.cpu.priviledge = sMode) : ¬ Refused vm word := by
  rintro ⟨bus, p, ht, hillegal⟩
  obtain ⟨bus', p', ht', hread⟩ := fetched_word_some hword
  have htaken : (processed vm).cpu.trapTaken = true := by
    rw [hillegal]
    exact raise_exception_taken _ _ _
  have hquiet : (dispatchInstruction (fetched vm bus') word).cpu.trapTaken = false :=
    satp_accepted h hp
  rw [(step_of_fetch ht').1, hread, retire_taken, hquiet] at htaken
  cases htaken

theorem writes_satp_names {vm : Vm} {value : BitVec 64} (h : WritesCsr vm csrSatp value) :
    ExecutesWord vm NamesSatp := by
  obtain ⟨bus, p, ht, hreq, _⟩ := h
  have hword : fetchedWord vm = some (vmBusRead32 bus p) := by rw [fetchedWord, ht]
  refine ⟨_, hword, ?_⟩
  obtain ⟨hop, h0, h4⟩ := csr_request_system hreq
  exact ⟨of_raw_eq hop, h0, h4, (csr_request_dispatch hreq).1⟩

/-- A step below M that does not access satp in S leaves satp as it is. -/
theorem low_satp {vm : Vm} (hp : vm.cpu.priviledge = uMode ∨ vm.cpu.priviledge = sMode)
    (hno : ¬ AccessesSatp vm) : (cpuStep vm).cpu.csrs csrSatp = vm.cpu.csrs csrSatp := by
  have hslot : csrSatp ∉ touched := by decide
  have hinv := slot_invariant (Q := fun satp => satp = vm.cpu.csrs csrSatp) hslot
  refine hinv.step rfl (slot_kept (Q := fun satp => satp = vm.cpu.csrs csrSatp) vm hslot rfl
    fun {addr value cpu} hwrite hw => ?_)
  rw [writes_satp hw]
  split
  · rename_i ha
    subst ha
    have hs : vm.cpu.priviledge = sMode := by
      refine hp.resolve_left fun hu => ?_
      obtain ⟨_, _, _, _, hcan⟩ := hwrite
      rw [hu] at hcan
      exact absurd hcan (by decide)
    exact absurd ⟨writes_satp_names hwrite, hs⟩ hno
  · rfl

theorem legal_step {vm : Vm} (hp : vm.cpu.priviledge = uMode ∨ vm.cpu.priviledge = sMode) :
    Legal (cpuStep vm).cpu.priviledge := by
  have hlegal : Legal vm.cpu.priviledge := hp.elim Or.inl fun h => Or.inr (Or.inl h)
  have hinv : ControlInvariant fun cpu => Legal cpu.priviledge :=
    ⟨fun h _ hpriv => hpriv ▸ h, fun h _ => h, fun _ _ => Or.inr (Or.inl rfl),
      fun _ => Or.inr (Or.inr rfl)⟩
  refine hinv.step hlegal ⟨fun _ hw => ?_, fun _ => ?_, fun hm => ?_⟩
  · rw [writes_eq hw]
    exact hlegal
  · unfold sretCpu
    dsimp only
    split <;> decide
  · rcases hp with h | h <;> exact absurd (h.symm.trans hm.2) (by decide)

/-- What holds from a state below M with TVM set on. -/
structure Confined (start vm : Vm) : Prop where
  low : vm.cpu.priviledge = uMode ∨ vm.cpu.priviledge = sMode
  tvm : tvm vm.cpu = true
  satp : vm.cpu.csrs csrSatp = start.cpu.csrs csrSatp

theorem Confined.step {start vm : Vm} (h : Confined start vm) (hno : ¬ AccessesSatp vm)
    (hlow : (cpuStep vm).cpu.priviledge ≠ mMode) : Confined start (cpuStep vm) := by
  have hle : vm.cpu.priviledge ≤ mMode ∧ vm.cpu.priviledge ≠ mMode := by
    rcases h.low with hp | hp <;> rw [hp] <;> decide
  refine ⟨?_, ?_, (low_satp h.low hno).trans h.satp⟩
  · rcases legal_step h.low with hu | hs | hm
    · exact Or.inl hu
    · exact Or.inr hs
    · exact absurd hm hlow
  · exact (sticky_step (by decide) (low_spares_mstatus hle.1 hle.2)).trans h.tvm

theorem below_confined {start vm : Vm} (hstart : Confined start start)
    (h : BelowMachine (fun vm => ¬ AccessesSatp vm) start vm) : Confined start vm := by
  induction h with
  | start => exact hstart
  | step vm _ hok hlow ih => exact ih.step hok hlow

/-- From any state below M with TVM set, along every run that stays below M and
in which S executes no CSR instruction that names satp, satp keeps its value,
and of the attempts to access it or to execute SFENCE.VMA all are refused but
those CSR instructions. -/
theorem tvm_confines_supervisor {start vm : Vm}
    (hp : start.cpu.priviledge = uMode ∨ start.cpu.priviledge = sMode)
    (htvm : tvm start.cpu = true)
    (h : BelowMachine (fun vm => ¬ AccessesSatp vm) start vm) :
    vm.cpu.csrs csrSatp = start.cpu.csrs csrSatp ∧
      (¬ AccessesSatp vm → (cpuStep vm).cpu.csrs csrSatp = start.cpu.csrs csrSatp) ∧
      ∀ word, fetchedWord vm = some word → NamesSatp word ∨ IsSfenceVma word →
        (Refused vm word ↔ ¬ AccessesSatp vm) := by
  have hc := below_confined ⟨hp, htvm, rfl⟩ h
  refine ⟨hc.satp, fun hno => (low_satp hc.low hno).trans hc.satp, fun word hword hkind => ?_⟩
  constructor
  · rintro hrefused ⟨⟨word', hword', hnames⟩, hs⟩
    rw [hword] at hword'
    cases hword'
    exact satp_not_refused hword hnames hs hrefused
  · intro hno
    apply refused_of_dispatch hword
    intro bus
    rcases hkind with hnames | hfence
    · have hu : vm.cpu.priviledge = uMode :=
        hc.low.resolve_right fun hs => hno ⟨⟨word, hword, hnames⟩, hs⟩
      exact satp_refused hnames hu
    · apply sfence_refused hfence
      rcases hc.low with hu | hs
      · exact Or.inl hu
      · exact Or.inr ⟨hs, hc.tvm⟩

/-- A supervisor with TVM set, about to execute this word. -/
def supervisorTvm (word : BitVec 64) : Vm :=
  { cpu := { supervisor with csrs := fun a => if a = csrMstatus then 1#64 <<< 20 else 0 }
    bus := busOf (ramOf [(0, word)]) }

/-- Its SFENCE.VMA is refused. -/
theorem tvm_refuses_sfence : Refused (supervisorTvm 0x12000073) 0x12000073 := by
  have hword : fetchedWord (supervisorTvm 0x12000073) = some 0x12000073 := by decide
  refine ((tvm_confines_supervisor (Or.inr rfl) rfl .start).2.2 _ hword (Or.inr (by decide))).mpr ?_
  rintro ⟨⟨word, hw, hnames⟩, _⟩
  rw [hword] at hw
  cases hw
  exact absurd rfl hnames.2.1

/-- Its `csrwi satp, 1` is not, and changes satp. -/
theorem tvm_lets_satp_change :
    tvm (supervisorTvm 0x1800D073).cpu = true ∧
      (supervisorTvm 0x1800D073).cpu.priviledge = sMode ∧
      (cpuStep (supervisorTvm 0x1800D073)).cpu.priviledge = sMode ∧
      (cpuStep (supervisorTvm 0x1800D073)).cpu.csrs csrSatp ≠
        (supervisorTvm 0x1800D073).cpu.csrs csrSatp := by
  decide

end RiscvVm.Proofs
