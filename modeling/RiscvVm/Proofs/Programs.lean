import RiscvVm.Lib.Program
import RiscvVm.Proofs.UserRuns
import RiscvVm.Proofs.Refinement
import RiscvVm.Proofs.Arithmetic

namespace RiscvVm.Proofs
open Rv64i Rv64im

/-- An SRAW by less than 16, or another instruction. -/
def ShortSraw (s : State) (i : Rv64im.Instr) : Prop :=
  ∀ rd rs1 rs2, i = .word (.register .sraw rd rs1 rs2) → (s.regs rs2).toNat % 32 < 16

theorem short_other {i : Rv64im.Instr} (s : State) (h : ∀ j, i ≠ .word j) : ShortSraw s i :=
  fun _ _ _ hi => absurd hi (h _)

section
variable {vm : Vm} (h : vm.cpu.regs 0 = 0) (hpc : vm.cpu.pcWritten = false)
include hpc

/-- Where the translation of its access leads to RAM and every byte of it has
its place there, an instruction of RV64I does to the machine what it does to
the hart, aligned or not. -/
theorem base_performs (i : Rv64i.Instr) (place : BitVec 64 → BitVec 64) {bus : Bus}
    (hnone : access vm.cpu.regs i = none → bus = vm.bus)
    (hsome : ∀ a, access vm.cpu.regs i = some a → ∃ p,
      translateAddress vm.cpu vm.bus a.addr (kindOf a) = (bus, .ok p) ∧ InRam p a.bytes ∧
        ∀ k < a.bytes, place (a.addr + BitVec.ofNat 64 k) = p + BitVec.ofNat 64 k) :
    ∃ hit, Performs vm.cpu (dispatchInstruction vm (encode i))
      (Rv64i.exec place (stateOf { vm with bus := bus } h) i) bus hit := by
  have hread := read_reg_eq h
  cases i with
  | lui rd imm =>
    rw [hnone rfl, dispatch_lui]
    exact ⟨_, performs_write h hpc _ _⟩
  | auipc rd imm =>
    rw [hnone rfl, dispatch_auipc]
    exact ⟨_, performs_write h hpc _ _⟩
  | jal rd imm =>
    rw [hnone rfl, dispatch_jal]
    exact ⟨_, performs_link h _ _ _⟩
  | jalr rd rs1 imm =>
    rw [hnone rfl, dispatch_jalr, hread]
    exact ⟨_, performs_link h _ _ _⟩
  | branch cond rs1 rs2 imm =>
    rw [hnone rfl, dispatch_branch, hread, hread]
    exact ⟨_, performs_branch h hpc _ _⟩
  | load op rd rs1 imm =>
    obtain ⟨p, ht, hram, hplace⟩ := hsome _ rfl
    exact ⟨_, load_performs h rs1 imm hpc op rd ht hram hplace⟩
  | store op rs1 rs2 imm =>
    obtain ⟨p, ht, hram, hplace⟩ := hsome _ rfl
    exact ⟨_, store_performs h rs1 imm hpc op rs2 ht hram hplace⟩
  | immediate op rd rs1 imm =>
    rw [hnone rfl, dispatch_immediate, hread]
    exact ⟨_, performs_write h hpc _ _⟩
  | shift op rd rs1 shamt =>
    rw [hnone rfl, dispatch_shift, hread]
    exact ⟨_, performs_write h hpc _ _⟩
  | register op rd rs1 rs2 =>
    rw [hnone rfl, dispatch_register, hread, hread]
    exact ⟨_, performs_write h hpc _ _⟩

theorem word_performs (i : WordInstr) (place : BitVec 64 → BitVec 64)
    (hshort : ShortSraw (stateOf vm h) (.word i)) :
    Performs vm.cpu (dispatchInstruction vm i.encode)
      (Rv64im.exec place (stateOf vm h) (.word i)) vm.bus false := by
  have hread : cpuReadReg vm.cpu = vm.cpu.regs := funext (read_reg_eq h)
  have hresult : WordResult vm i := by
    refine (word_result_iff vm i).mpr fun hlost => ?_
    cases i with
    | register op rd rs1 rs2 =>
      cases op with
      | sraw =>
        obtain ⟨_, hfar, _⟩ := hlost
        rw [hread] at hfar
        have hnear := hshort rd rs1 rs2 rfl
        exact absurd hfar (Nat.not_le.mpr hnear)
      | _ => exact hlost
    | addiw => exact hlost
    | shift => exact hlost
  rw [hresult, hread]
  exact performs_write h hpc _ _

theorem mul_performs (op : MOp) (rd rs1 rs2 : BitVec 5) (place : BitVec 64 → BitVec 64) :
    Performs vm.cpu (dispatchInstruction vm (op.encode rd rs1 rs2))
      (Rv64im.exec place (stateOf vm h) (.mul op rd rs1 rs2)) vm.bus false := by
  have hread := read_reg_eq h
  rw [m_dispatch, hread, hread]
  exact performs_write h hpc _ _

/-- The same of every instruction of RV64IM. -/
theorem instr_performs (i : Rv64im.Instr) (place : BitVec 64 → BitVec 64) {bus : Bus}
    (hshort : ShortSraw (stateOf vm h) i)
    (hnone : i.access (stateOf vm h) = none → bus = vm.bus)
    (hsome : ∀ a, i.access (stateOf vm h) = some a → ∃ p,
      translateAddress vm.cpu vm.bus a.addr (kindOf a) = (bus, .ok p) ∧ InRam p a.bytes ∧
        ∀ k < a.bytes, place (a.addr + BitVec.ofNat 64 k) = p + BitVec.ofNat 64 k) :
    ∃ hit, Performs vm.cpu (dispatchInstruction vm i.encode)
      (Rv64im.exec place (stateOf { vm with bus := bus } h) i) bus hit := by
  cases i with
  | base i => exact base_performs h hpc i place hnone hsome
  | word i =>
    rw [hnone rfl]
    exact ⟨_, word_performs h hpc i place hshort⟩
  | mul op rd rs1 rs2 =>
    rw [hnone rfl]
    exact ⟨_, mul_performs h hpc op rd rs1 rs2 place⟩

end

/-- The machine executes for itself: in M, with interrupts off and addresses
physical. -/
structure Physical (cpu : Cpu) : Prop where
  settled : Settled cpu
  machine : cpu.priviledge = mMode
  mie : (cpu.csrs csrMstatus).getLsbD 3 = false
  mprv : (cpu.csrs csrMstatus).getLsbD 17 = false

theorem Physical.translate {cpu : Cpu} (h : Physical cpu) (bus : Bus) (va : BitVec 64)
    (acc : AccessType) :
    translateAddress cpu bus va acc = (bus, .ok va) := by
  refine translate_machine ?_ bus va
  unfold effectivePriviledge
  dsimp only
  rw [h.mprv, if_neg fun hm => absurd hm.2.2 (by decide), h.machine]

theorem Physical.begins {cpu : Cpu} (h : Physical cpu) : Physical (beginStep cpu) :=
  ⟨⟨h.settled.zero, h.settled.pcWritten⟩, h.machine, h.mie, h.mprv⟩

theorem physical_selected {cpu : Cpu} (hm : cpu.priviledge = mMode)
    (hmie : (cpu.csrs csrMstatus).getLsbD 3 = false) : selected cpu = none := by
  refine List.find?_eq_none.mpr fun n _ => ?_
  unfold takeable
  rw [hmie, hm]
  split <;> simp

/-- The machine fetches its instruction from RAM and does it. -/
theorem physical_performs {vm : Vm} (h : Physical vm.cpu) {i : Rv64im.Instr}
    (hword : Rv64im.fetch id (stateOf vm h.settled.zero) = i.encode) (hram : InRam vm.cpu.pc 4)
    {s : State} {bus : Bus} {hit : Bool}
    (hdone : Performs (beginStep vm.cpu) (dispatchInstruction (fetched vm vm.bus) i.encode) s bus
      hit) : cpuStep vm = refined vm s bus hit := by
  have hfetch : vmBusRead32 vm.bus vm.cpu.pc = i.encode := by
    rw [← hword, vmBusRead32, if_pos ((ram_range_iff _).mpr (hram.mono (by omega))), memRead32,
      mem_read_in_ram vm.bus.ram (by omega) (by omega) hram]
    exact (ByteMap.read_based _ _ _ _).symm
  obtain ⟨hp, hs⟩ := step_of_fetch (h.translate vm.bus vm.cpu.pc .fetch)
  rw [hfetch] at hp
  rw [hs, hp]
  refine finish_performs hdone (physical_selected ?_ ?_)
  · rw [retire_priviledge, hdone.priviledge]
    exact h.machine
  · rw [retire_csrs _ (by decide), hdone.csrs]
    exact h.begins.mie

/-- One step of a program. -/
theorem physical_step {vm : Vm} (h : Physical vm.cpu) {i : Rv64im.Instr}
    (hword : Rv64im.fetch id (stateOf vm h.settled.zero) = i.encode)
    (hwithin : Within InRam (stateOf vm h.settled.zero) i)
    (hshort : ShortSraw (stateOf vm h.settled.zero) i) :
    ∃ hit, cpuStep vm = refined vm (Rv64im.exec id (stateOf vm h.settled.zero) i) vm.bus hit := by
  have hperf := @instr_performs (fetched vm vm.bus) h.settled.zero h.settled.pcWritten i id vm.bus
    hshort (fun _ => rfl) fun a ha =>
      ⟨a.addr, h.begins.translate vm.bus _ _, hwithin.accessed a ha, fun _ _ => rfl⟩
  obtain ⟨hit, hdone⟩ := hperf
  exact ⟨hit, physical_performs h hword hwithin.fetched hdone⟩

/-- What a run of `n` instructions from `vm` has come to in `vm'` when the hart
is in `s`, where `idle` is the machine that has executed nothing. -/
structure Ran (vm vm' idle : Vm) (s : State) (n : Nat) : Prop where
  physical : Physical vm'.cpu
  hart : stateOf vm' physical.settled.zero = s
  csrs : ∀ a, a ∉ [csrMcycle, csrMinstret, csrMip] → vm'.cpu.csrs a = vm.cpu.csrs a
  cycles : vm'.cpu.csrs csrMcycle = vm.cpu.csrs csrMcycle + BitVec.ofNat 64 n
  instret : vm'.cpu.csrs csrMinstret = vm.cpu.csrs csrMinstret + BitVec.ofNat 64 n
  devices : vm'.bus = { idle.bus with ram := vm'.bus.ram }

theorem refined_state {vm : Vm} {s : State} {bus : Bus} {hit : Bool}
    (h : (refined vm s bus hit).cpu.regs 0 = 0) : stateOf (refined vm s bus hit) h = s := by
  have hmem : (fun a => s.mem (memBase + (a - memBase))) = s.mem := by
    funext a
    rw [BitVec.add_comm, BitVec.sub_add_cancel]
  obtain ⟨regs, zero, pc, mem⟩ := s
  simp only [stateOf, refined, State.mk.injEq, true_and]
  exact hmem

theorem stepped_state {vm vm' : Vm} {s : State} {bus : Bus} {hit : Bool}
    (hstep : vm' = refined vm s bus hit) {h : vm'.cpu.regs 0 = 0} : stateOf vm' h = s := by
  subst hstep
  exact refined_state h

/-- The clock turns the devices of both machines alike. -/
theorem clock_turn_devices {vm vm' : Vm} (h : vm'.bus = { vm.bus with ram := vm'.bus.ram })
    (host : HostTurn) : (clockTurn vm' host).bus =
      { (clockTurn vm host).bus with ram := (clockTurn vm' host).bus.ram } := by
  obtain ⟨cpu, bus⟩ := vm
  obtain ⟨cpu', bus'⟩ := vm'
  have hbus : bus' = { bus with ram := bus'.ram } := h
  rw [hbus]
  cases host <;> rfl

theorem clock_turn_regs (vm : Vm) (host : HostTurn) :
    (clockTurn vm host).cpu.regs = vm.cpu.regs := by
  unfold clockTurn
  rw [host_cpu]
  unfold vmTick
  dsimp only
  rw [set_pending_eq, set_pending_eq]
  rfl

theorem clock_turn_state {vm : Vm} (host : HostTurn) (h : vm.cpu.regs 0 = 0)
    (h' : (clockTurn vm host).cpu.regs 0 = 0) :
    stateOf (clockTurn vm host) h' = stateOf vm h := by
  simp only [stateOf, State.mk.injEq]
  rw [clock_turn_regs, clock_turn_pc, (clock_turn_bus vm host).1]
  exact ⟨rfl, rfl, rfl⟩

theorem Physical.clock {vm : Vm} (h : Physical vm.cpu) (host : HostTurn) :
    Physical (clockTurn vm host).cpu := by
  refine ⟨tick_settled h.settled host, ?_, ?_, ?_⟩
  · rw [clock_turn_priviledge, h.machine]
  · rw [clock_turn_csrs vm host (by decide), h.mie]
  · rw [clock_turn_csrs vm host (by decide), h.mprv]

/-- A program goes on as it is. -/
theorem Physical.step {vm : Vm} (h : Physical vm.cpu) {s : State} {bus : Bus} {hit : Bool}
    (hstep : cpuStep vm = refined vm s bus hit) : Physical (cpuStep vm).cpu := by
  have hsettled := step_settled h.settled
  rw [hstep] at hsettled ⊢
  exact ⟨hsettled, h.machine, h.mie, h.mprv⟩

theorem Ran.step {vm vm' idle : Vm} {s : State} {n : Nat} (h : Ran vm vm' idle s n)
    {i : Rv64im.Instr} (hword : Rv64im.fetch id s = i.encode) (hwithin : Within InRam s i)
    (hshort : ShortSraw s i) (host : HostTurn) :
    Ran vm (mainLoop vm' host) (clockTurn idle host) (Rv64im.exec id s i) (n + 1) := by
  obtain ⟨physical, rfl, csrs, cycles, instret, devices⟩ := h
  obtain ⟨hit, hstep⟩ := physical_step physical hword hwithin hshort
  have hphysical := physical.step hstep
  rw [main_loop_eq]
  rw [hstep] at hphysical ⊢
  have hnext (x : BitVec 64) : x + BitVec.ofNat 64 (n + 1) = x + BitVec.ofNat 64 n + 1 := by
    rw [BitVec.ofNat_add, ← BitVec.add_assoc]
    rfl
  refine ⟨hphysical.clock host, ?_, fun a ha => ?_, ?_, ?_, clock_turn_devices ?_ host⟩
  · rw [clock_turn_state host hphysical.settled.zero, refined_state]
  · simp only [List.mem_cons, List.not_mem_nil, or_false, not_or] at ha
    rw [clock_turn_csrs _ host ha.2.2, ← csrs a (by simp [ha])]
    exact if_neg (by simp [ha.1, ha.2.1])
  · rw [clock_turn_csrs _ host (by decide), hnext, ← cycles]
    simp [refined]
  · rw [clock_turn_csrs _ host (by decide), hnext, ← instret]
    simp [refined]
  · rw [devices]
    rfl

theorem Ran.run {vm vm' idle : Vm} {s : State} {n : Nat} (h : Ran vm vm' idle s n)
    {instrs : List Rv64im.Instr} (htraces : Traces id InRam ShortSraw s instrs)
    {hosts : List HostTurn} (hlen : hosts.length = instrs.length) :
    Ran vm (hosts.foldl mainLoop vm') (hosts.foldl clockTurn idle)
      (instrs.foldl (Rv64im.exec id) s) (n + instrs.length) := by
  induction instrs generalizing vm' idle s n hosts with
  | nil =>
    rw [List.eq_nil_of_length_eq_zero hlen]
    exact h
  | cons i instrs ih =>
    obtain ⟨⟨hword, hwithin, hshort⟩, hrest⟩ := htraces
    obtain ⟨host, hosts, rfl⟩ := List.exists_cons_of_length_eq_add_one hlen
    have hend := ih (h.step hword hwithin hshort host) hrest (by simpa using hlen)
    rw [Nat.add_right_comm] at hend
    exact hend

/-- The machine runs RV64IM. As long as a program keeps to RAM, `n` iterations
in M, with interrupts off and addresses physical, take the hart, memory
included, where `n` instructions take it, each of them fetched from memory as
the program has left it by then. Besides, they count: time goes on for the
devices as for a machine that executes nothing, and no other CSR changes. -/
theorem program_refines {vm : Vm} (h : Physical vm.cpu) (instrs : List Rv64im.Instr)
    (htraces : Traces id InRam ShortSraw (stateOf vm h.settled.zero) instrs)
    (hosts : List HostTurn) (hlen : hosts.length = instrs.length) :
    Ran vm (hosts.foldl mainLoop vm) (hosts.foldl clockTurn vm)
      (instrs.foldl (Rv64im.exec id) (stateOf vm h.settled.zero)) instrs.length := by
  have hstart : Ran vm vm vm (stateOf vm h.settled.zero) 0 :=
    ⟨h, rfl, fun _ _ => rfl, by simp, by simp, rfl⟩
  have hend := hstart.run htraces hlen
  rw [Nat.zero_add] at hend
  exact hend

/-- `auipc x5, 0; lw x6, 16(x5); sw x6, 12(x5)` and then the instruction that
these have copied from offset 16 to offset 12: `mul x7, x6, x6`. -/
def patching : Vm :=
  vmInit (ramOf [(0, 0x0102A30300000297), (8, 0x0062A623), (16, 0x026303B3)])

def patched : List Rv64im.Instr :=
  [.base (.auipc 5 0), .base (.load .lw 6 5 16), .base (.store .sw 5 6 12), .mul .mul 7 6 6]

theorem patching_physical : Physical patching.cpu := ⟨⟨rfl, rfl⟩, rfl, by decide, by decide⟩

theorem patching_traces :
    Traces id InRam ShortSraw (stateOf patching patching_physical.settled.zero) patched := by
  refine ⟨⟨by decide +kernel, ⟨by decide, fun a ha => ?_⟩, short_other _ (by simp)⟩,
    ⟨by decide +kernel, ⟨by decide, fun a ha => ?_⟩, short_other _ (by simp)⟩,
    ⟨by decide +kernel, ⟨by decide, fun a ha => ?_⟩, short_other _ (by simp)⟩,
    ⟨by decide +kernel, ⟨by decide, fun a ha => ?_⟩, short_other _ (by simp)⟩, trivial⟩
  all_goals cases ha
  all_goals decide +kernel

theorem patching_refines :
    Ran patching ([.quiet, .poll none, .quiet, .quiet].foldl mainLoop patching)
      ([.quiet, .poll none, .quiet, .quiet].foldl clockTurn patching)
      (patched.foldl (Rv64im.exec id) (stateOf patching patching_physical.settled.zero)) 4 :=
  program_refines patching_physical patched patching_traces [.quiet, .poll none, .quiet, .quiet] rfl

end RiscvVm.Proofs
