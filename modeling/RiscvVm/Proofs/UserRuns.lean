import RiscvVm.Lib.Runs
import RiscvVm.Proofs.Sandbox
import RiscvVm.Proofs.Pending

namespace RiscvVm.Proofs
open Sv39

/-- The CPU is where its last trap has put it. -/
def AtEntry (cpu : Cpu) : Prop :=
  (cpu.priviledge = sMode ∧ cpu.pc = cpu.csrs csrStvec &&& ~~~0x3#64) ∨
    (cpu.priviledge = mMode ∧ cpu.pc = cpu.csrs csrMtvec &&& ~~~0x3#64)

theorem AtEntry.not_user {cpu : Cpu} (h : AtEntry cpu) : cpu.priviledge ≠ uMode := by
  rcases h with ⟨hp, _⟩ | ⟨hp, _⟩ <;> rw [hp] <;> decide

theorem exception_at_entry (cpu : Cpu) (cause tvalue : BitVec 64) :
    AtEntry (raiseException cpu cause tvalue) := by
  unfold raiseException
  dsimp only
  split
  · exact Or.inl ⟨rfl, rfl⟩
  · exact Or.inr ⟨rfl, rfl⟩

theorem interrupt_at_entry (cpu : Cpu) (cause : BitVec 64) :
    AtEntry (raiseInterrupt cpu cause) := by
  unfold raiseInterrupt
  dsimp only
  split
  · exact Or.inl ⟨rfl, rfl⟩
  · exact Or.inr ⟨rfl, rfl⟩

theorem check_at_entry {cpu : Cpu} (h : AtEntry cpu) : AtEntry (cpuCheckInterrupts cpu) := by
  rw [check_interrupts_eq]
  cases selected cpu with
  | none => exact h
  | some cause => exact interrupt_at_entry cpu _

/-- What a step of U leaves before the interrupt check: U with its CSRs, or the
entry of a trap handler. -/
theorem user_processed {vm : Vm} (hu : vm.cpu.priviledge = uMode) :
    (AtEntry (processed vm).cpu ∧ (cpuStep vm).cpu.priviledge ≠ uMode) ∨
      ((processed vm).cpu.priviledge = uMode ∧ cpuStep vm = finish (processed vm) ∧
        ∀ a, a ≠ csrMcycle → a ≠ csrMinstret →
          (processed vm).cpu.csrs a = vm.cpu.csrs a) := by
  rcases step_cases vm with ⟨_, hp, hs⟩ | ⟨bus, p, done, _, hx, hp, hs⟩
  · have hentry : AtEntry (processed vm).cpu := by
      rw [hp]
      exact exception_at_entry _ _ _
    refine Or.inl ⟨hentry, ?_⟩
    rw [hs]
    exact hentry.not_user
  · have hcontrol := executes_control hx
    have hplain : done.cpu.trapTaken = false → done.cpu.priviledge = uMode →
        (processed vm).cpu.priviledge = uMode ∧ cpuStep vm = finish (processed vm) ∧
          ∀ a, a ≠ csrMcycle → a ≠ csrMinstret →
            (processed vm).cpu.csrs a = vm.cpu.csrs a := by
      intro ht hd
      refine ⟨?_, hs, fun a hcycle hinst => ?_⟩
      · rw [hp, retire_priviledge, hd]
      · have hdone : done.cpu.csrs = (fetched vm bus).cpu.csrs := user_csrs hu hx ht
        rw [hp, retire_csrs _ hinst, hdone]
        exact begin_csrs vm.cpu hcycle
    cases hcontrol with
    | plain hcsrs hpriv htaken => exact Or.inr (hplain htaken (hpriv.trans hu))
    | trap he =>
      have htaken : done.cpu.trapTaken = true := by
        rw [he]
        exact raise_exception_taken _ _ _
      have hentry : AtEntry (processed vm).cpu := by
        rw [hp, retire_trapped htaken, he]
        exact exception_at_entry _ _ _
      refine Or.inl ⟨hentry, ?_⟩
      rw [hs]
      exact (check_at_entry hentry).not_user
    | csr addr new cpu hreq hcan hw hcsrs hpriv htaken =>
      have hno : csrCanWrite addr uMode = false := user_writes_none (writes_implemented hw)
      have hcan' : csrCanWrite addr vm.cpu.priviledge = true := hcan
      rw [hu, hno] at hcan'
      cases hcan'
    | sret hword hpriv he => exact absurd hu hpriv
    | mret hword hpriv he =>
      have hm : vm.cpu.priviledge = mMode := hpriv
      rw [hu] at hm
      exact absurd hm (by decide)

/-- A step that stays in U has changed no CSR but the counters, and no
interrupt was to be taken. -/
theorem user_stays {vm : Vm} (hu : vm.cpu.priviledge = uMode)
    (he : (cpuStep vm).cpu.priviledge = uMode) :
    selected (processed vm).cpu = none ∧ (processed vm).cpu.priviledge = uMode ∧
      (∀ a, a ≠ csrMcycle → a ≠ csrMinstret → (processed vm).cpu.csrs a = vm.cpu.csrs a) ∧
      ∀ a, a ≠ csrMcycle → a ≠ csrMinstret → (cpuStep vm).cpu.csrs a = vm.cpu.csrs a := by
  rcases user_processed hu with ⟨_, hno⟩ | ⟨hp, hs, hcsrs⟩
  · exact absurd he hno
  · have hcheck := check_interrupts_eq (processed vm).cpu
    cases hsel : selected (processed vm).cpu with
    | none =>
      rw [hsel] at hcheck
      refine ⟨rfl, hp, hcsrs, fun a hcycle hinst => ?_⟩
      rw [hs, finish, on_cpu_cpu, hcheck]
      exact hcsrs a hcycle hinst
    | some cause =>
      rw [hsel] at hcheck
      rw [hs, finish, on_cpu_cpu, hcheck] at he
      exact absurd he (interrupt_at_entry (processed vm).cpu _).not_user

/-- A step that leaves U is at the entry of a trap handler. -/
theorem user_leaves {vm : Vm} (hu : vm.cpu.priviledge = uMode)
    (he : (cpuStep vm).cpu.priviledge ≠ uMode) : AtEntry (cpuStep vm).cpu := by
  have hfinish : ∀ vm' : Vm, AtEntry (cpuCheckInterrupts vm'.cpu) → AtEntry (finish vm').cpu :=
    fun _ h => h
  rcases user_processed hu with ⟨hentry, _⟩ | ⟨hp, hs, _⟩
  · rcases step_cases vm with ⟨_, _, hs⟩ | ⟨_, _, _, _, _, _, hs⟩
    · rwa [hs]
    · rw [hs]
      exact hfinish _ (check_at_entry hentry)
  · rw [hs] at he ⊢
    refine hfinish _ ?_
    rw [finish, on_cpu_cpu] at he
    rw [check_interrupts_eq] at he ⊢
    cases hsel : selected (processed vm).cpu with
    | none =>
      rw [hsel] at he
      exact absurd hp he
    | some cause => exact interrupt_at_entry (processed vm).cpu _

/-- Whatever a step of U does, it changes no CSR but the counters and those a
trap entry writes. -/
theorem user_step_csrs {vm : Vm} (hu : vm.cpu.priviledge = uMode) {a : BitVec 12}
    (ha : a ∉ touched) : (cpuStep vm).cpu.csrs a = vm.cpu.csrs a := by
  have hinv := slot_invariant (a := a) (Q := fun v => v = vm.cpu.csrs a) ha
  refine hinv.step rfl (slot_kept (Q := fun v => v = vm.cpu.csrs a) vm ha rfl ?_)
  rintro addr value cpu ⟨_, _, _, _, hcan⟩ hw
  rw [hu, user_writes_none (writes_implemented hw)] at hcan
  cases hcan

/-- The part of an iteration of the main loop after its step: the clock and the
host. -/
def clockTurn (vm : Vm) (host : HostTurn) : Vm := hostInput (vmTick vm) host

theorem main_loop_eq (vm : Vm) (host : HostTurn) :
    mainLoop vm host = clockTurn (cpuStep vm) host := rfl

theorem clock_turn_bus (vm : Vm) (host : HostTurn) :
    (clockTurn vm host).bus.ram = vm.bus.ram ∧
      (clockTurn vm host).bus.timer = timerTick vm.bus.timer ∧
      (clockTurn vm host).bus.transmitted = vm.bus.transmitted := by
  cases host <;> exact ⟨rfl, rfl, rfl⟩

theorem clock_turn_priviledge (vm : Vm) (host : HostTurn) :
    (clockTurn vm host).cpu.priviledge = vm.cpu.priviledge := by
  unfold clockTurn
  rw [host_cpu]
  unfold vmTick
  dsimp only
  rw [set_pending_eq, set_pending_eq]
  rfl

theorem clock_turn_pc (vm : Vm) (host : HostTurn) : (clockTurn vm host).cpu.pc = vm.cpu.pc := by
  unfold clockTurn
  rw [host_cpu]
  unfold vmTick
  dsimp only
  rw [set_pending_eq, set_pending_eq]
  rfl

theorem clock_turn_csrs (vm : Vm) (host : HostTurn) {a : BitVec 12} (ha : a ≠ csrMip) :
    (clockTurn vm host).cpu.csrs a = vm.cpu.csrs a := by
  unfold clockTurn
  rw [host_cpu]
  unfold vmTick
  dsimp only
  rw [set_pending_eq, set_pending_eq, set_csr_csrs, if_neg ha, set_csr_csrs, if_neg ha]

theorem clock_turn_entry {vm : Vm} (h : AtEntry vm.cpu) (host : HostTurn) :
    AtEntry (clockTurn vm host).cpu := by
  unfold AtEntry
  rw [clock_turn_priviledge, clock_turn_pc, clock_turn_csrs vm host (by decide),
    clock_turn_csrs vm host (by decide)]
  exact h

section
variable {zone : Zone}

theorem clock_turn_reads {vm : Vm} {a : BitVec 64} (ha : InRam a 8) (host : HostTurn) :
    vmBusRead64 (clockTurn vm host).bus a = vmBusRead64 vm.bus a := by
  rw [bus_read64_in_ram _ ha, bus_read64_in_ram _ ha, (clock_turn_bus vm host).1]

theorem Sandboxed.clock {vm : Vm} (h : Sandboxed zone vm.cpu vm.bus) (host : HostTurn) :
    Sandboxed zone (clockTurn vm host).cpu (clockTurn vm host).bus := by
  refine h.same (fun va a ha => ?_) ⟨clock_turn_priviledge vm host,
    clock_turn_csrs vm host (by decide), clock_turn_csrs vm host (by decide)⟩
  rw [clock_turn_reads (span_in_ram zone.tableRam (h.tables va a ha) (by omega) (by omega))]
  exact fun _ _ _ => rfl

/-- The clock and the host see the devices only. -/
theorem Spared.clock {vm vm' : Vm} (h : Spared zone vm.bus vm'.bus) (host : HostTurn) :
    Spared zone (clockTurn vm host).bus (clockTurn vm' host).bus := by
  obtain ⟨hram, htimer, htransmitted⟩ := clock_turn_bus vm host
  obtain ⟨hram', htimer', htransmitted'⟩ := clock_turn_bus vm' host
  refine ⟨fun x ht hw => ?_, fun a ha ht => ?_, ?_, ?_, ?_⟩
  · have hsame := h.ram x ht hw
    unfold ramBytes at hsame ⊢
    rw [hram, hram', hsame]
  · have haram : InRam a 8 := span_in_ram zone.tableRam ht (by omega) (by omega)
    rw [clock_turn_reads haram, clock_turn_reads haram]
    exact h.tables a ha ht
  · rw [htimer, htimer', h.timer]
  · cases host with
    | quiet => exact h.uart
    | poll input => exact congrArg (uartHandleHostInput · input) h.uart
  · rw [htransmitted, htransmitted', h.transmitted]

/-- One step of a confined process. -/
theorem Sandboxed.step {vm : Vm} (h : Sandboxed zone vm.cpu vm.bus) :
    Spared zone vm.bus (cpuStep vm).bus := by
  rcases step_cases vm with ⟨_, hp, hs⟩ | ⟨bus, p, done, ht, hx, hp, hs⟩
  · rw [hs, hp]
    exact .refl zone _
  · have hfetch := h.translate vm.cpu.pc .fetch
    rw [ht] at hfetch
    have hready : Sandboxed zone (fetched vm bus).cpu (fetched vm bus).bus :=
      h.spared hfetch ⟨rfl, rfl, rfl⟩
    have hdone : Spared zone bus done.bus := hready.executes hx
    rw [hs, hp]
    exact hfetch.trans hdone

/-- One iteration of the main loop: what it changes, and where it leaves the CPU. -/
theorem Sandboxed.iterate {vm : Vm} (h : Sandboxed zone vm.cpu vm.bus) (host : HostTurn)
    (hu : (mainLoop vm host).cpu.priviledge = uMode) :
    Sandboxed zone (mainLoop vm host).cpu (mainLoop vm host).bus ∧
      ∀ a, a ∉ [csrMcycle, csrMinstret, csrMip] →
        (mainLoop vm host).cpu.csrs a = vm.cpu.csrs a := by
  rw [main_loop_eq, clock_turn_priviledge] at hu
  obtain ⟨_, _, _, hcsrs⟩ := user_stays h.user hu
  have hall : ∀ a, a ∉ [csrMcycle, csrMinstret, csrMip] →
      (mainLoop vm host).cpu.csrs a = vm.cpu.csrs a := by
    intro a ha
    simp only [List.mem_cons, List.not_mem_nil, or_false, not_or] at ha
    rw [main_loop_eq, clock_turn_csrs _ host ha.2.2, hcsrs a ha.1 ha.2.1]
  have hview : SameView vm.cpu (cpuStep vm).cpu :=
    ⟨hu.trans h.user.symm, hcsrs _ (by decide) (by decide), hcsrs _ (by decide) (by decide)⟩
  exact ⟨(h.spared h.step hview).clock host, hall⟩

/-- What a run of user code from `vm` has come to in `vm'`, where `idle` is the
machine whose clock has run and whose host has typed, but that has executed
nothing. -/
structure Contained (zone : Zone) (vm vm' idle : Vm) : Prop where
  bus : Spared zone idle.bus vm'.bus
  csrs : ∀ a, a ∉ csrMip :: touched → vm'.cpu.csrs a = vm.cpu.csrs a
  stays : vm'.cpu.priviledge = uMode → Sandboxed zone vm'.cpu vm'.bus ∧
    ∀ a, a ∉ [csrMcycle, csrMinstret, csrMip] → vm'.cpu.csrs a = vm.cpu.csrs a
  leaves : vm'.cpu.priviledge ≠ uMode → AtEntry vm'.cpu

theorem Contained.step {vm vm' idle : Vm} (h : Contained zone vm vm' idle)
    (hu : vm'.cpu.priviledge = uMode) (host : HostTurn) :
    Contained zone vm (mainLoop vm' host) (clockTurn idle host) := by
  obtain ⟨hconf, hcsrs⟩ := h.stays hu
  refine ⟨(h.bus.trans hconf.step).clock host, fun a ha => ?_, fun he => ?_, fun he => ?_⟩
  · simp only [List.mem_cons, not_or] at ha
    have htouched : a ∉ touched := by simpa [touched] using ha.2
    rw [main_loop_eq, clock_turn_csrs _ host ha.1, user_step_csrs hu htouched]
    exact h.csrs a (by simp [ha.1, htouched])
  · obtain ⟨hnext, hsame⟩ := hconf.iterate host he
    exact ⟨hnext, fun a ha => (hsame a ha).trans (hcsrs a ha)⟩
  · rw [main_loop_eq, clock_turn_priviledge] at he
    exact clock_turn_entry (user_leaves hu he) host

/-- Every iteration of the run starts in U. -/
def UserRun (vm : Vm) (hosts : List HostTurn) : Prop :=
  Past.Along mainLoop (fun vm _ => vm.cpu.priviledge = uMode) vm hosts

theorem Contained.start {vm : Vm} (h : Sandboxed zone vm.cpu vm.bus) : Contained zone vm vm vm :=
  ⟨.refl zone _, fun _ _ => rfl, fun _ => ⟨h, fun _ _ => rfl⟩, fun hne => absurd h.user hne⟩

theorem Contained.run {vm vm' idle : Vm} (h : Contained zone vm vm' idle) {hosts : List HostTurn}
    (hrun : UserRun vm' hosts) :
    Contained zone vm (hosts.foldl mainLoop vm') (hosts.foldl clockTurn idle) := by
  refine hrun.related (R := Contained zone vm) (S := Eq) (fun s t a b hs hab hu => ?_)
    (List.forall₂_refl hosts) h
  subst hab
  exact hs.step hu a

/-- A user process stays in its zone. Whatever it executes and whatever the
host types, after any number of iterations in U, the one that leaves U
included, RAM outside the zone is untouched, its page tables have at most been
marked, the devices are those of a machine that has executed nothing, and no
CSR has changed but the counters, the pending bits and what a trap entry
records. It is still confined then, or at the entry of a trap handler. -/
theorem user_contained {vm : Vm} (h : Sandboxed zone vm.cpu vm.bus) (hosts : List HostTurn)
    (hrun : UserRun vm hosts) :
    Contained zone vm (hosts.foldl mainLoop vm) (hosts.foldl clockTurn vm) :=
  (Contained.start h).run hrun

end

/-- The word at an offset of such a RAM is the last one put there, or zero. -/
theorem ram_of_word (words : List (BitVec 64 × BitVec 64)) (hw : ∀ w ∈ words, w.1.toNat % 8 = 0)
    {a : BitVec 64} (ha : a.toNat % 8 = 0) :
    ByteMap.read 64 (ramOf words).mem a 8 =
      ((words.reverse.find? fun w => decide (w.1 = a)).map Prod.snd).getD 0 := by
  induction words using List.reverseRecOn with
  | nil =>
    apply BitVec.eq_of_getLsbD_eq
    intro i hi
    simp [ramOf, ByteMap.read_getLsbD]
  | append_singleton words w ih =>
    have hrest := ih fun x hx => hw x (by simp [hx])
    have hww := hw w (by simp)
    have hmem : (ramOf (words ++ [w])).mem = ByteMap.write (ramOf words).mem w.1 w.2 8 := by
      simp [ramOf]
    rw [hmem, List.reverse_append, List.reverse_singleton, List.singleton_append, List.find?_cons]
    by_cases he : w.1 = a
    · simp only [he, decide_true]
      exact ByteMap.read_write _ a w.2 (by omega) rfl
    · simp only [he, decide_false]
      rw [← hrest]
      refine ByteMap.read_write_other _ w.2 (by omega) (by omega) fun x hx => ?_
      have hne : a.toNat ≠ w.1.toNat := fun h => he (BitVec.eq_of_toNat_eq h.symm)
      have := a.isLt
      have := w.1.isLt
      have := x.isLt
      simp only [BitVec.toNat_sub] at hx ⊢
      omega

/-- A process with one page and one page table: entry 0 of the table points to
the table itself and entry 1 is the page, so that only `0x1000` is mapped. The
code on the page stores to it and loops. Below the table, where the traps to M
go, the kernel disables all interrupts and returns. -/
def processWords : List (BitVec 64 × BitVec 64) :=
  [(0x100, 0x3020007330405073), (0x1000, 0x20000401), (0x1008, 0x2000081F),
    (0x2000, 0x0410B023000010B7), (0x2008, 0x6F)]

theorem process_words_aligned : ∀ w ∈ processWords, w.1.toNat % 8 = 0 := by
  simp [processWords]

def processRam : Memory := ramOf processWords

/-- Its timer is set to the fifth tick. -/
def processBus : Bus :=
  { busOf processRam with timer := { msip := 0, mtime := 0, mtimecmp := 5 } }

def process : Vm :=
  { cpu :=
      { regs := fun r => if r = 1 then 0x1000 else 0
        csrs := fun a =>
          if a = csrSatp then 0x8000000000080001
          else if a = csrMtvec then 0x80000100
          else if a = csrMie then 0x80
          else if a = csrMstatus then 0x80
          else 0
        pc := 0x1000
        priviledge := uMode
        reservation := { valid := false, physAddr := 0, size := 0 }
        trapTaken := false
        pcWritten := false }
    bus := processBus }

theorem process_entry (j : BitVec 9) :
    vmBusRead64 processBus (0x80001000 + j.setWidth 64 * 8) =
      if j = 0 then 0x20000401 else if j = 1 then 0x2000081F else 0 := by
  have hj := j.isLt
  have ha : (0x80001000 + j.setWidth 64 * 8 : BitVec 64).toNat = 0x80001000 + j.toNat * 8 := by
    simp
    omega
  have hoff : (0x80001000 + j.setWidth 64 * 8 - memBase : BitVec 64).toNat =
      0x1000 + j.toNat * 8 := by
    rw [BitVec.toNat_sub, ha]
    simp [memBase]
    omega
  have hin : InRam (0x80001000 + j.setWidth 64 * 8) 8 := by
    unfold InRam
    rw [ha]
    simp [memBase, memSize]
    omega
  rw [bus_read64_in_ram _ hin]
  have haligned : (0x80001000 + j.setWidth 64 * 8 - memBase : BitVec 64).toNat % 8 = 0 := by omega
  refine (ram_of_word processWords process_words_aligned haligned).trans ?_
  by_cases h0 : j = 0
  · subst h0
    decide
  by_cases h1 : j = 1
  · subst h1
    decide
  have hne : ∀ k : BitVec 64, k.toNat ≠ 0x1000 + j.toNat * 8 →
      k ≠ 0x80001000 + j.setWidth 64 * 8 - memBase := by
    rintro k hk rfl
    exact hk hoff
  have hj0 : j.toNat ≠ 0 := fun h => h0 (BitVec.eq_of_toNat_eq h)
  have hj1 : j.toNat ≠ 1 := fun h => h1 (BitVec.eq_of_toNat_eq h)
  rw [if_neg h0, if_neg h1, List.find?_eq_none.mpr]
  · rfl
  · intro w hw
    simp only [processWords, List.reverse_cons, List.reverse_nil, List.nil_append,
      List.cons_append, List.mem_cons, List.not_mem_nil, or_false] at hw
    rcases hw with rfl | rfl | rfl | rfl | rfl
    all_goals
      rw [decide_eq_true_eq]
      refine hne _ ?_
      simp
      omega

/-- The page and the seven bytes after it, which accesses at its end reach. -/
def processZone : Zone where
  table := fun x => (x - 0x80001000).toNat < 0x1000
  reads := fun x => (x - 0x80002000).toNat < 0x1007
  writes := fun x => (x - 0x80002000).toNat < 0x1007
  apart := by
    intro x ht hw
    bv_omega
  tableRam := by
    intro x hx
    unfold InRam
    simp only [memBase, memSize]
    bv_omega
  readsRam := by
    intro x hx
    unfold InRam
    simp only [memBase, memSize]
    bv_omega
  writesRam := by
    intro x hx
    unfold InRam
    simp only [memBase, memSize]
    bv_omega

theorem process_entry_cases (j : BitVec 9) :
    (¬ Leaf (vmBusRead64 processBus (0x80001000 + j.setWidth 64 * 8)) ∧
      (WellFormed (vmBusRead64 processBus (0x80001000 + j.setWidth 64 * 8)) →
        vmBusRead64 processBus (0x80001000 + j.setWidth 64 * 8) = 0x20000401)) ∨
    vmBusRead64 processBus (0x80001000 + j.setWidth 64 * 8) = 0x2000081F := by
  rw [process_entry]
  by_cases h0 : j = 0
  · rw [if_pos h0]
    exact Or.inl ⟨by unfold Leaf; decide, fun _ => rfl⟩
  by_cases h1 : j = 1
  · rw [if_neg h0, if_pos h1]
    exact Or.inr rfl
  · rw [if_neg h0, if_neg h1]
    refine Or.inl ⟨by unfold Leaf; decide, fun hwf => ?_⟩
    exact absurd hwf.valid (by decide)

/-- All walks stay in the one table. -/
theorem process_visits {va table a : BitVec 64} {i : Nat}
    (h : Visits (vmBusRead64 processBus) va i table a) (ht : table = 0x80001000) :
    ∃ j : BitVec 9, a = 0x80001000 + j.setWidth 64 * 8 := by
  induction h with
  | here i table => exact ⟨vpn va i, by rw [pteAddr, ht]⟩
  | next i table a ok go rest ih =>
    refine ih ?_
    subst ht
    rcases process_entry_cases (vpn va (i + 1)) with ⟨_, he⟩ | he
    · rw [pteAddr] at ok ⊢
      rw [he ok]
      decide
    · rw [pteAddr, he] at go
      exact absurd (by unfold Leaf; decide) go

theorem process_root : pageAddr (rootOf process.cpu) = 0x80001000 := by decide

theorem process_translates {va p : BitVec 64} {acc : AccessType}
    (h : (translateAddress process.cpu processBus va acc).2 = .ok p) :
    (p - 0x80002000).toNat < 0x1000 := by
  rcases translate_cases process.cpu processBus va acc with
    ⟨hbare, _⟩ | ⟨_, _, _, he⟩ | ⟨_, _, _, he⟩
  · rcases hbare with hb | hb
    · exact absurd hb (by decide)
    · rw [user_effective rfl] at hb
      exact absurd hb (by decide)
  · rw [he] at h
    obtain ⟨level, a, hw, hal, _, hp, _⟩ :=
      (sv39_loop_ok process.cpu processBus va acc _ (Nat.le_refl 2) _ _ p).mp (Prod.ext rfl h)
    obtain ⟨j, ha⟩ := process_visits hw.visits process_root
    rcases process_entry_cases j with ⟨hno, _⟩ | hleaf
    · rw [← ha] at hno
      exact absurd (walk_leaf hw).2 hno
    · rw [ha, hleaf] at hal hp
      have hlevel : level = 0 := by
        refine Decidable.byContradiction fun hne => ?_
        exact absurd (hal.low (by omega)) (by decide)
      subst hlevel
      have hppn : ppn2 0x2000081F ++ ppn1 0x2000081F ++ ppn0 0x2000081F = 0x80002#44 := by decide
      have hoff := (pageOffset va).isLt
      have hcat : (0x80002#44 ++ pageOffset va).toNat = 0x80002000 + (pageOffset va).toNat := by
        rw [BitVec.toNat_append, ← Nat.shiftLeft_add_eq_or_of_lt hoff]
        rfl
      rw [hp, physical, if_neg (by decide), if_neg (by decide), hppn, BitVec.toNat_sub,
        BitVec.toNat_setWidth, hcat]
      simp
      omega
  · rw [he] at h
    cases h

theorem process_sandboxed : Sandboxed processZone process.cpu process.bus := by
  have hspan : ∀ {p : BitVec 64}, (p - 0x80002000).toNat < 0x1000 →
      Span (fun x => (x - 0x80002000).toNat < 0x1007) p 8 := by
    intro p hp x hx
    bv_omega
  refine ⟨rfl, by decide, fun va a ha => ?_, fun va acc p hp => hspan (process_translates hp),
    fun va p hp => hspan (process_translates hp)⟩
  obtain ⟨j, rfl⟩ := process_visits ha.2 process_root
  intro x hx
  have hj := j.isLt
  simp only [processZone]
  bv_omega

/-- Two iterations of the process, with a key pressed in the second. -/
theorem process_contained :
    Contained processZone process ([.quiet, .poll (some 0x41)].foldl mainLoop process)
      ([.quiet, .poll (some 0x41)].foldl clockTurn process) :=
  user_contained process_sandboxed [.quiet, .poll (some 0x41)] ⟨rfl, by decide +kernel, trivial⟩

end RiscvVm.Proofs
