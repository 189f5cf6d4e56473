import RiscvVm.Proofs.Nesting
import RiscvVm.Proofs.UserPrograms

namespace RiscvVm.Proofs
open Rv64i Rv64im Sv39

/-- Where a trap at this level has saved the pc. -/
def savedPc (level : BitVec 8) (cpu : Cpu) : BitVec 64 :=
  if level = mMode then cpu.csrs csrMepc else cpu.csrs csrSepc

/-- The machine is about to return from a trap at this level. -/
def AtReturn (level : BitVec 8) (vm : Vm) : Prop := if level = mMode then Mrets vm else Srets vm

/-- A trap entry saves the pc and keeps the registers. -/
theorem Raises.saves {origin entry : Cpu} (h : Raises origin entry) :
    savedPc entry.priviledge entry = origin.pc ∧ entry.regs = origin.regs := by
  obtain ⟨cause, tvalue, rfl | rfl⟩ := h.cases
  · exact ⟨rfl, rfl⟩
  · exact ⟨rfl, rfl⟩

section
variable {vm : Vm}

/-- An interrupt comes after the instruction, whose work it keeps. -/
theorem interrupt_saves {cause : Nat} (h : interruptTaken vm = some cause) :
    savedPc (cpuStep vm).cpu.priviledge (cpuStep vm).cpu = (processed vm).cpu.pc ∧
      (cpuStep vm).cpu.regs = (processed vm).cpu.regs ∧ (cpuStep vm).bus = (processed vm).bus := by
  obtain ⟨pcWritten, hcpu⟩ := step_cpu_eq vm
  rw [h] at hcpu
  have hraises : Raises (processed vm).cpu
      (raiseInterrupt (processed vm).cpu (BitVec.ofNat 64 cause)) := .interrupt _
  obtain ⟨hpc, hregs⟩ := hraises.saves
  rw [hcpu]
  refine ⟨hpc, hregs, ?_⟩
  obtain ⟨_, _, hs⟩ | ⟨_, _, _, _, _, _, hs⟩ := step_cases vm
  · rw [hs]
  · rw [hs]
    rfl

/-- An exception has done nothing but walk to its instruction. -/
theorem exception_saves {level : BitVec 8} (h : exceptionLevel vm = some level) :
    savedPc level (cpuStep vm).cpu = vm.cpu.pc ∧ (cpuStep vm).cpu.regs = vm.cpu.regs ∧
      (cpuStep vm).bus = (translateAddress vm.cpu vm.bus vm.cpu.pc .fetch).1 := by
  obtain ⟨htaken, hlevel⟩ := exception_level_some h
  have hframe : TrapFrame (beginStep vm.cpu) (processed vm).cpu := by
    rw [processed_trapped htaken]
    exact raise_exception_frame _ _ _
  have hbus : (processed vm).bus = (translateAddress vm.cpu vm.bus vm.cpu.pc .fetch).1 := by
    rw [processed_trapped htaken]
    rfl
  have hsaved : ∀ cpu, Recorded vm cpu (stepException vm).1 (stepException vm).2 →
      savedPc level cpu = vm.cpu.pc := by
    intro cpu hrec
    unfold Recorded at hrec
    unfold savedPc
    obtain ⟨hd, hentry⟩ | ⟨hd, hentry⟩ := exception_entry htaken
    · rw [hentry, trap_to_s_priviledge] at hlevel
      rw [if_pos hd] at hrec
      rw [← hlevel, if_neg (by decide)]
      exact hrec.1
    · rw [hentry, trap_to_m_priviledge] at hlevel
      rw [if_neg hd] at hrec
      rw [← hlevel, if_pos rfl]
      exact hrec.1
  have hrecorded := check_recorded htaken
  obtain ⟨_, _, hs⟩ | ⟨_, _, _, _, _, _, hs⟩ := step_cases vm
  · rw [hs]
    exact ⟨hsaved _ hrecorded.1, hframe.regs, hbus⟩
  · rw [hs]
    exact ⟨hsaved _ hrecorded.2, (check_interrupts_frame _).regs.trans hframe.regs, hbus⟩

/-- A return from a trap that ends in U goes to the saved pc with the registers
as they are. -/
theorem AtReturn.resumes {level : BitVec 8} (h : AtReturn level vm)
    (hu : (cpuStep vm).cpu.priviledge = uMode) :
    (cpuStep vm).cpu.pc = savedPc level vm.cpu ∧ (cpuStep vm).cpu.regs = vm.cpu.regs := by
  have hquiet : interruptTaken vm = none := by
    cases htaken : interruptTaken vm with
    | none => rfl
    | some cause =>
      obtain ⟨pcWritten, hcpu⟩ := step_cpu_eq vm
      rw [htaken] at hcpu
      rw [hcpu] at hu
      exact absurd hu (interrupt_at_entry _ _).not_user
  have hregs : (cpuStep vm).cpu.regs = (processed vm).cpu.regs := by
    obtain ⟨pcWritten, hcpu⟩ := step_cpu_eq vm
    rw [hcpu, hquiet]
  unfold AtReturn at h
  unfold savedPc
  by_cases hlevel : level = mMode
  · rw [if_pos hlevel] at h ⊢
    have hdone := h.returned
    obtain ⟨⟨word, hw, hmret⟩, hpriv⟩ := h
    obtain ⟨bus, p, ht, rfl⟩ := fetched_word_some hw
    have hm : (fetched vm bus).cpu.priviledge = mMode := hpriv
    rw [step_pc_quiet (by rw [hw]; rfl) hquiet, hdone.pc, hregs, (step_of_fetch ht).1,
      dispatch_mret _ hmret, mret_eq _ hm, retire_regs]
    exact ⟨rfl, rfl⟩
  · rw [if_neg hlevel] at h ⊢
    have hdone := h.returned
    obtain ⟨⟨word, hw, hsret⟩, hpriv⟩ := h
    obtain ⟨bus, p, ht, rfl⟩ := fetched_word_some hw
    have hm : (fetched vm bus).cpu.priviledge ≠ uMode := hpriv
    rw [step_pc_quiet (by rw [hw]; rfl) hquiet, hdone.pc, hregs, (step_of_fetch ht).1,
      dispatch_sret _ hsret, sret_eq _ hm, retire_regs]
    exact ⟨rfl, rfl⟩

end

/-- What an instruction has made of the hart, at its retirement. -/
theorem performs_retired {cpu : Cpu} {done : Vm} {s : State} {bus : Bus} {hit : Bool}
    (h : Performs cpu done s bus hit) (htaken : done.cpu.trapTaken = false) :
    (retire done).cpu.regs = s.regs ∧ (retire done).cpu.pc = s.pc ∧
      ∀ x, ramBytes (retire done).bus x = s.mem x := by
  refine ⟨(retire_regs done).trans h.regs, ?_, fun x => ?_⟩
  · rw [retire_cpu, htaken]
    exact h.next
  · have hbus : (retire done).bus = done.bus := rfl
    rw [ramBytes, hbus, h.bus]
    dsimp only
    rw [BitVec.add_comm, BitVec.sub_add_cancel]

/-- The kernel's part of a trap at this level, from `entry` up to `kernel`, where
it returns: it hands back the registers, the saved pc and the process's memory
as they were, and what it has done to the page tables leaves the process in its
zone and its pages where they were. -/
structure HandsBack (zone : Zone) (place : BitVec 64 → BitVec 64) (level : BitVec 8)
    (entry kernel : Vm) (ret : HostTurn) : Prop where
  returns : AtReturn level kernel
  saved : savedPc level kernel.cpu = savedPc level entry.cpu
  regs : kernel.cpu.regs = entry.cpu.regs
  memory : ∀ x, zone.reads x → ramBytes (mainLoop kernel ret).bus x = ramBytes entry.bus x
  inside : Sandboxed zone (mainLoop kernel ret).cpu (mainLoop kernel ret).bus
  placed : Placed place (mainLoop kernel ret)

/-- A run of the main loop in which a process executes `n` instructions. Besides
its own turns it is interrupted after an instruction, or traps in the middle of
one that it then tries again, and the kernel has the machine for any number of
turns, in which other processes may run. -/
inductive Shared (zone : Zone) (place : BitVec 64 → BitVec 64) : Vm → Vm → Nat → Prop
  | here (vm : Vm) : Shared zone place vm vm 0
  | turn {vm last : Vm} {n : Nat} (host : HostTurn)
      (hu : (mainLoop vm host).cpu.priviledge = uMode)
      (rest : Shared zone place (mainLoop vm host) last n) : Shared zone place vm last (n + 1)
  | preempted {vm last : Vm} {n cause : Nat} (host : HostTurn) (hosts : List HostTurn)
      (ret : HostTurn) (hno : exceptionLevel vm = none) (htaken : interruptTaken vm = some cause)
      (hback : HandsBack zone place (cpuStep vm).cpu.priviledge (mainLoop vm host)
        (hosts.foldl mainLoop (mainLoop vm host)) ret)
      (rest : Shared zone place (mainLoop (hosts.foldl mainLoop (mainLoop vm host)) ret) last n) :
      Shared zone place vm last (n + 1)
  | retried {vm last : Vm} {n : Nat} {level : BitVec 8} (host : HostTurn) (hosts : List HostTurn)
      (ret : HostTurn) (hexc : exceptionLevel vm = some level)
      (hback : HandsBack zone place level (mainLoop vm host)
        (hosts.foldl mainLoop (mainLoop vm host)) ret)
      (rest : Shared zone place (mainLoop (hosts.foldl mainLoop (mainLoop vm host)) ret) last n) :
      Shared zone place vm last n

section
variable {zone : Zone} {place : BitVec 64 → BitVec 64} {vm : Vm} {s : State} {level : BitVec 8}

theorem run_settled (h : Settled vm.cpu) (hosts : List HostTurn) :
    Settled (hosts.foldl mainLoop vm).cpu := by
  induction hosts generalizing vm with
  | nil => exact h
  | cons host hosts ih => exact ih (tick_settled (step_settled h) host)

/-- What a trap has saved of a hart is what the process goes on from. -/
theorem HandsBack.tracks {host : HostTurn} {hosts : List HostTurn} {ret : HostTurn}
    (h : HandsBack zone place level (mainLoop vm host)
      (hosts.foldl mainLoop (mainLoop vm host)) ret) (hset : Settled vm.cpu)
    (hregs : (cpuStep vm).cpu.regs = s.regs) (hpc : savedPc level (cpuStep vm).cpu = s.pc)
    (hmem : ∀ x, zone.reads x → ramBytes (cpuStep vm).bus x = s.mem x) :
    Tracks zone (fun x => ¬ zone.reads x) place
      (mainLoop (hosts.foldl mainLoop (mainLoop vm host)) ret) s := by
  obtain ⟨returns, saved, regs, memory, inside, placed⟩ := h
  have hkernel := run_settled hset (host :: hosts)
  have hback := run_settled hset (host :: hosts ++ [ret])
  rw [List.foldl_append] at hback
  have huser := inside.user
  rw [main_loop_eq, clock_turn_priviledge] at huser
  obtain ⟨hpc', hregs'⟩ := returns.resumes huser
  have hsaved : savedPc level (mainLoop vm host).cpu = savedPc level (cpuStep vm).cpu := by
    unfold savedPc
    rw [main_loop_eq, clock_turn_csrs _ host (by decide), clock_turn_csrs _ host (by decide)]
  refine ⟨inside, placed, hback, ?_, ?_, fun x hx => ?_⟩
  · have hentry := clock_turn_regs (cpuStep vm) host
    have hend := clock_turn_regs (cpuStep (hosts.foldl mainLoop (mainLoop vm host))) ret
    exact hend.trans (hregs'.trans (regs.trans (hentry.trans hregs)))
  · have hend := clock_turn_pc (cpuStep (hosts.foldl mainLoop (mainLoop vm host))) ret
    exact hend.trans (hpc'.trans (saved.trans (hsaved.trans hpc)))
  · have hreads := Classical.not_not.mp hx
    have hentry : ramBytes (mainLoop vm host).bus x = ramBytes (cpuStep vm).bus x := by
      rw [ramBytes, ramBytes, main_loop_eq, (clock_turn_bus (cpuStep vm) host).1]
    exact (memory x hreads).trans (hentry.trans (hmem x hreads))

theorem not_excepted (h : exceptionLevel vm = none) : (processed vm).cpu.trapTaken = false := by
  unfold exceptionLevel at h
  split at h
  · cases h
  · exact Bool.eq_false_iff.mpr ‹_›

/-- An interrupted turn has executed its instruction. -/
theorem Tracks.preempted (h : Tracks zone (fun x => ¬ zone.reads x) place vm s)
    (hhide : Hides zone fun x => ¬ zone.reads x) {i : Rv64im.Instr}
    (hword : Rv64im.fetch place s = i.encode)
    (hwithin : Within (fun va n => ¬ CrossesPage va n) s i) (hshort : ShortSraw s i)
    {cause : Nat} (hno : exceptionLevel vm = none) (htaken : interruptTaken vm = some cause)
    {host ret : HostTurn} {hosts : List HostTurn}
    (hback : HandsBack zone place (cpuStep vm).cpu.priviledge (mainLoop vm host)
      (hosts.foldl mainLoop (mainLoop vm host)) ret) :
    Tracks zone (fun x => ¬ zone.reads x) place
      (mainLoop (hosts.foldl mainLoop (mainLoop vm host)) ret) (Rv64im.exec place s i) := by
  obtain ⟨inside, placed, settled, hart⟩ := h
  have hplain := not_excepted hno
  obtain ⟨done, bus, hit, s', hs', hdone, hproc, _⟩ :=
    inside.executed hhide placed settled hart hword hwithin hshort hplain
  obtain ⟨hpc, hregs, hbus⟩ := interrupt_saves htaken
  rw [hproc] at hplain hpc hregs hbus
  rw [retire_taken] at hplain
  obtain ⟨hregs', hpc', hmem'⟩ := performs_retired hdone hplain
  refine hback.tracks settled ((hregs.trans hregs').trans hs'.regs)
    ((hpc.trans hpc').trans hs'.pc) fun x hx => ?_
  rw [hbus, hmem' x]
  exact hs'.mem x (Classical.not_not.mpr hx)

/-- A turn that has trapped has executed nothing. -/
theorem Tracks.retried (h : Tracks zone (fun x => ¬ zone.reads x) place vm s)
    (hapart : ∀ x, zone.table x → ¬ zone.reads x) (hexc : exceptionLevel vm = some level)
    {host ret : HostTurn} {hosts : List HostTurn}
    (hback : HandsBack zone place level (mainLoop vm host)
      (hosts.foldl mainLoop (mainLoop vm host)) ret) :
    Tracks zone (fun x => ¬ zone.reads x) place
      (mainLoop (hosts.foldl mainLoop (mainLoop vm host)) ret) s := by
  obtain ⟨inside, placed, settled, hart⟩ := h
  obtain ⟨hpc, hregs, hbus⟩ := exception_saves hexc
  refine hback.tracks settled (hregs.trans hart.regs) (hpc.trans hart.pc) fun x hx => ?_
  rw [hbus, inside.walk_ram _ _ fun ht => hapart x ht hx]
  exact hart.mem x (Classical.not_not.mpr hx)

/-- A process computes what its program says however often it is interrupted
and whatever its kernel does meanwhile, as long as the kernel hands back what
it has found. No instruction is lost and none is executed twice, neither where
an interrupt comes after it nor where a trap has come in the middle of it. -/
theorem time_shared (h : Sandboxed zone vm.cpu vm.bus) (hset : Settled vm.cpu)
    (hplace : Placed place vm) (hapart : ∀ x, zone.table x → ¬ zone.reads x)
    (instrs : List Rv64im.Instr)
    (htraces : Traces place (fun va n => ¬ CrossesPage va n) ShortSraw (stateOf vm hset.zero)
      instrs) {last : Vm} (hrun : Shared zone place vm last instrs.length) :
    Tracks zone (fun x => ¬ zone.reads x) place last
      (instrs.foldl (Rv64im.exec place) (stateOf vm hset.zero)) := by
  have hhide : Hides zone fun x => ¬ zone.reads x := ⟨hapart, fun _ hx => hx⟩
  have hstart : Tracks zone (fun x => ¬ zone.reads x) place vm (stateOf vm hset.zero) :=
    ⟨h, hplace, hset, rfl, rfl, fun _ _ => rfl⟩
  generalize stateOf vm hset.zero = s at htraces hstart ⊢
  generalize hlen : instrs.length = n at hrun
  clear h hset hplace
  induction hrun generalizing s instrs with
  | here =>
    rw [List.eq_nil_of_length_eq_zero hlen]
    exact hstart
  | turn host hu _ ih =>
    obtain ⟨i, instrs, rfl⟩ := List.exists_cons_of_length_eq_add_one hlen
    obtain ⟨⟨hword, hwithin, hshort⟩, hrest⟩ := htraces
    exact ih instrs _ hrest (hstart.step hhide hword hwithin hshort host hu) (by simpa using hlen)
  | preempted host hosts ret hno htaken hback _ ih =>
    obtain ⟨i, instrs, rfl⟩ := List.exists_cons_of_length_eq_add_one hlen
    obtain ⟨⟨hword, hwithin, hshort⟩, hrest⟩ := htraces
    exact ih instrs _ hrest (hstart.preempted hhide hword hwithin hshort hno htaken hback)
      (by simpa using hlen)
  | retried host hosts ret hexc hback _ ih =>
    exact ih instrs s htraces (hstart.retried hapart hexc hback) hlen

end

/-- A turn of M that accesses no data leaves RAM alone. -/
theorem machine_turn_ram {vm : Vm} {word : BitVec 32} (hm : vm.cpu.priviledge = mMode)
    (hw : fetchedWord vm = some word) (hno : dataAccess (fetched vm vm.bus) word = none)
    (host : HostTurn) : (mainLoop vm host).bus.ram = vm.bus.ram := by
  have hbus := executes_bus (dispatch_executes (fetched vm vm.bus) word) hno
  rw [main_loop_eq, (clock_turn_bus _ host).1, machine_step hm hw]
  exact congrArg Bus.ram hbus

theorem same_ram_reads {zone : Zone} {cpu : Cpu} {bus bus' : Bus} (h : Sandboxed zone cpu bus)
    (hram : bus'.ram = bus.ram) (va : BitVec 64) : SameReads cpu bus bus' va := by
  intro a ha
  have hin : InRam a 8 := span_in_ram zone.tableRam (h.tables va a ha) (by omega) (by omega)
  rw [bus_read64_in_ram bus hin, bus_read64_in_ram bus' hin, hram]
  exact fun _ _ _ => rfl

/-- The process just before its timer is due. -/
def sharer : Vm :=
  { process with bus := { processBus with timer := { msip := 0, mtime := 4, mtimecmp := 5 } } }

theorem sharer_reads (va : BitVec 64) : SameReads process.cpu process.bus sharer.bus va := by
  have hram : sharer.bus.ram = process.bus.ram := rfl
  exact same_ram_reads process_sandboxed hram va

theorem sharer_sandboxed : Sandboxed processZone sharer.cpu sharer.bus :=
  process_sandboxed.same sharer_reads ⟨rfl, rfl, rfl⟩

theorem sharer_placed : Placed (pageMap process) sharer := by
  have hplace : Placed (pageMap process) process :=
    fun va acc p hp => process_sandboxed.page_map hp
  exact hplace.same sharer_reads ⟨rfl, rfl, rfl⟩

/-- The process in its handler: it is interrupted in its second turn, and the
kernel disables the interrupt and returns. -/
theorem sharer_back : HandsBack processZone (pageMap process) mMode
    ([.quiet, .quiet].foldl mainLoop sharer) ([.quiet, .quiet, .quiet].foldl mainLoop sharer)
    .quiet := by
  have hfirst : ([HostTurn.quiet, .quiet, .quiet].foldl mainLoop sharer).bus.ram =
      ([HostTurn.quiet, .quiet].foldl mainLoop sharer).bus.ram :=
    @machine_turn_ram _ 0x30405073 (by decide +kernel) (by decide +kernel) rfl .quiet
  have hlast : ([HostTurn.quiet, .quiet, .quiet, .quiet].foldl mainLoop sharer).bus.ram =
      ([HostTurn.quiet, .quiet, .quiet].foldl mainLoop sharer).bus.ram :=
    @machine_turn_ram _ 0x30200073 (by decide +kernel) (by decide +kernel) rfl .quiet
  have hram := hlast.trans hfirst
  have hcont : Contained processZone sharer ([HostTurn.quiet, .quiet].foldl mainLoop sharer)
      ([HostTurn.quiet, .quiet].foldl clockTurn sharer) :=
    (Contained.start sharer_sandboxed).run ⟨rfl, by decide +kernel, trivial⟩
  have hview : SameView sharer.cpu
      (mainLoop ([HostTurn.quiet, .quiet, .quiet].foldl mainLoop sharer) .quiet).cpu :=
    ⟨by decide +kernel, by decide +kernel, by decide +kernel⟩
  have hreads : ∀ va, SameReads sharer.cpu sharer.bus
      (mainLoop ([HostTurn.quiet, .quiet, .quiet].foldl mainLoop sharer) .quiet).bus va := by
    intro va a ha
    have hspan := sharer_sandboxed.tables va a ha
    have hin : InRam a 8 := span_in_ram processZone.tableRam hspan (by omega) (by omega)
    have hentry := hcont.bus.tables a (reads_aligned ha) hspan
    rw [List.foldl_cons, List.foldl_cons, List.foldl_nil, clock_turn_reads hin,
      clock_turn_reads hin] at hentry
    have hback : vmBusRead64
        (mainLoop ([HostTurn.quiet, .quiet, .quiet].foldl mainLoop sharer) .quiet).bus a =
        vmBusRead64 ([HostTurn.quiet, .quiet].foldl mainLoop sharer).bus a := by
      rw [bus_read64_in_ram _ hin, bus_read64_in_ram _ hin]
      exact congrArg (fun ram : Memory => ByteMap.read 64 ram.mem (a - memBase) 8) hram
    rw [hback]
    exact hentry
  refine ⟨⟨⟨0x30200073, by decide +kernel, rfl, rfl, rfl⟩, by decide +kernel⟩,
    by decide +kernel, funext (by decide +kernel), fun x _ => ?_,
    sharer_sandboxed.same hreads hview, sharer_placed.same hreads hview⟩
  exact congrArg (fun ram : Memory => ram.mem (x - memBase)) hram

theorem sharer_shared : Tracks processZone (fun x => ¬ processZone.reads x) (pageMap process)
    ([.quiet, .quiet, .quiet, .quiet, .quiet, .quiet].foldl mainLoop sharer)
    (processCode.foldl (Rv64im.exec (pageMap process)) (stateOf sharer process_settled.zero)) := by
  have hfirst : (mainLoop sharer .quiet).cpu.priviledge = uMode := by decide +kernel
  have hno : exceptionLevel (mainLoop sharer .quiet) = none := by decide +kernel
  have htaken : interruptTaken (mainLoop sharer .quiet) = some 7 := by decide +kernel
  have hlevel : (cpuStep (mainLoop sharer .quiet)).cpu.priviledge = mMode := by decide +kernel
  have hback := sharer_back
  rw [← hlevel] at hback
  have hthird : ([HostTurn.quiet, .quiet, .quiet, .quiet, .quiet].foldl mainLoop
      sharer).cpu.priviledge = uMode := by decide +kernel
  have hfourth : ([HostTurn.quiet, .quiet, .quiet, .quiet, .quiet, .quiet].foldl mainLoop
      sharer).cpu.priviledge = uMode := by decide +kernel
  exact time_shared sharer_sandboxed process_settled sharer_placed process_apart processCode
    process_traces (.turn .quiet hfirst (.preempted .quiet [.quiet] .quiet hno htaken hback
      (.turn .quiet hthird (.turn .quiet hfourth (.here _)))))

end RiscvVm.Proofs
