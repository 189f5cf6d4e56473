import RiscvVm.Lib.Device
import RiscvVm.Proofs.Console
import RiscvVm.Proofs.Programs

namespace RiscvVm.Proofs
open Rv64i Rv64im

/-- The terminal, what has been sent to the host, and how far the loop has
counted up to its next poll. -/
structure Console where
  terminal : Terminal
  transmitted : List (BitVec 8)
  counter : BitVec 32

/-- An access of the guest. -/
def Console.access (c : Console) (access : UartAccess) : Console :=
  { c with
    terminal := c.terminal.access access
    transmitted := c.transmitted ++ (sent c.terminal.uart access).toList }

def Console.start (stdin : List (BitVec 8)) : Console :=
  { terminal := .start stdin, transmitted := [], counter := 0 }

/-- The UART as a device beside the memory. The host is polled after every
thousandth instruction. -/
def console : Device Console Bool where
  window a := addrInRange a uartBase uartSize
  read c a := (c.access (.read (a - uartBase)), (uartRead8 c.terminal.uart (a - uartBase)).2)
  write c a value := c.access (.write (a - uartBase) value)
  turn c ready :=
    if c.counter + 1 = 1000 then
      { c with terminal := c.terminal.handleHostInput ready, counter := 0 }
    else { c with counter := c.counter + 1 }

/-- The console as it is in a run of the loop. -/
def consoleOf (bus : Bus) (stdin : List (BitVec 8)) (counter : BitVec 32) : Console :=
  { terminal := { uart := bus.uart, stdin := stdin }
    transmitted := bus.transmitted
    counter := counter }

def busRead (bus : Bus) (offset : BitVec 64) : Bus :=
  { bus with uart := (uartRead8 bus.uart offset).1 }

def busWrite (bus : Bus) (offset : BitVec 64) (value : BitVec 8) : Bus :=
  { bus with
    uart := (uartWrite8 bus.uart offset value).1
    transmitted := bus.transmitted ++ (uartWrite8 bus.uart offset value).2.toList }

theorem console_read (bus : Bus) (stdin : List (BitVec 8)) (counter : BitVec 32)
    (offset : BitVec 64) : (consoleOf bus stdin counter).access (.read offset) =
      consoleOf (busRead bus offset) stdin counter := by
  simp [Console.access, consoleOf, busRead, Terminal.access, sent]

theorem console_write (bus : Bus) (stdin : List (BitVec 8)) (counter : BitVec 32)
    (offset : BitVec 64) (value : BitVec 8) :
    (consoleOf bus stdin counter).access (.write offset value) =
      consoleOf (busWrite bus offset value) stdin counter := rfl

theorem uart_dispatch_load {vm : Vm} {instruction : IType} (op : LoadOp)
    (h3 : instruction.funct3 = op.funct3) (hone : op.bytes = 1) {bus : Bus} {p : BitVec 64}
    (ht : translateAddress vm.cpu vm.bus (instruction.imm + cpuReadReg vm.cpu instruction.rs1)
      .load = (bus, .ok p)) (hin : addrInRange p uartBase uartSize = true) :
    dispatchLoad vm instruction =
      { cpu := cpuWriteReg vm.cpu instruction.rd
          (byteValue op (uartRead8 bus.uart (p - uartBase)).2)
        bus := busRead bus (p - uartBase) } := by
  have hload : ∀ extend, extend ((uartRead8 bus.uart (p - uartBase)).2.setWidth 64) =
      byteValue op (uartRead8 bus.uart (p - uartBase)).2 → loadOp .w8 extend vm instruction =
      { cpu := cpuWriteReg vm.cpu instruction.rd
          (byteValue op (uartRead8 bus.uart (p - uartBase)).2)
        bus := busRead bus (p - uartBase) } := by
    intro extend he
    rw [uart_load_op ht hin, he]
    rfl
  unfold dispatchLoad
  rw [h3]
  cases op with
  | lb => exact hload _ (extend_byte _)
  | lbu =>
    refine hload _ ?_
    rw [byteValue, wrap_nat, BitVec.ofNat_toNat]
    rfl
  | _ => cases hone

theorem uart_dispatch_store {vm : Vm} {instruction : SType} (h3 : instruction.funct3 = 0)
    {bus : Bus} {p : BitVec 64}
    (ht : translateAddress vm.cpu vm.bus (cpuReadReg vm.cpu instruction.rs1 + instruction.imm)
      .store = (bus, .ok p)) (hin : addrInRange p uartBase uartSize = true) :
    dispatchStore vm instruction =
      { cpu := cpuInvalidateReservation vm.cpu p 1
        bus := busWrite bus (p - uartBase) ((cpuReadReg vm.cpu instruction.rs2).setWidth 8) } := by
  unfold dispatchStore
  rw [h3]
  change storeOp .w8 vm instruction = _
  unfold storeOp cpuStore
  dsimp only
  rw [ht]
  simp only [vmBusWrite, vmBusWrite8, uart_not_ram hin, hin, if_true]
  rfl

section
variable {vm : Vm} (h : vm.cpu.regs 0 = 0) (hpc : vm.cpu.pcWritten = false)
  {rs1 : BitVec 5} {imm : BitVec 12} {p : BitVec 64}
include hpc

/-- A load of a byte from the UART. -/
theorem uart_load_performs (op : LoadOp) (rd : BitVec 5) (hone : op.bytes = 1)
    (ht : translateAddress vm.cpu vm.bus (vm.cpu.regs rs1 + wrap imm.toInt) .load =
      (vm.bus, .ok p)) (hin : addrInRange p uartBase uartSize = true) :
    Performs vm.cpu (dispatchInstruction vm (Rv64i.encode (.load op rd rs1 imm)))
      (((stateOf vm h).set rd (byteValue op (uartRead8 vm.bus.uart (p - uartBase)).2)).jump
        (vm.cpu.pc + 4))
      (busRead vm.bus (p - uartBase)) false := by
  have hop : Opcode.ofRaw 0b0000011 = some .load := rfl
  rw [← read_reg_eq h, BitVec.add_comm, wrap_imm] at ht
  have hdone : dispatchInstruction vm (Rv64i.encode (.load op rd rs1 imm)) =
      { cpu := cpuWriteReg vm.cpu rd (byteValue op (uartRead8 vm.bus.uart (p - uartBase)).2)
        bus := busRead vm.bus (p - uartBase) } := by
    unfold Rv64i.encode
    rw [dispatch_word, opcode_i, hop]
    simp only [decode_i]
    refine uart_dispatch_load op ?_ hone ht hin
    rfl
  rw [hdone]
  exact @performs_write { vm with bus := busRead vm.bus (p - uartBase) } h hpc rd _

/-- A store of a byte to the UART. -/
theorem uart_store_performs (rs2 : BitVec 5)
    (ht : translateAddress vm.cpu vm.bus (vm.cpu.regs rs1 + wrap imm.toInt) .store =
      (vm.bus, .ok p)) (hin : addrInRange p uartBase uartSize = true) :
    Performs vm.cpu (dispatchInstruction vm (Rv64i.encode (.store .sb rs1 rs2 imm)))
      ((stateOf vm h).jump (vm.cpu.pc + 4))
      (busWrite vm.bus (p - uartBase) ((vm.cpu.regs rs2).setWidth 8))
      (decide (Hits vm.cpu p 1)) := by
  have hop : Opcode.ofRaw 0b0100011 = some .store := rfl
  rw [← read_reg_eq h, wrap_imm] at ht
  have hdone : dispatchInstruction vm (Rv64i.encode (.store .sb rs1 rs2 imm)) =
      { cpu := cpuInvalidateReservation vm.cpu p 1
        bus := busWrite vm.bus (p - uartBase) ((cpuReadReg vm.cpu rs2).setWidth 8) } := by
    unfold Rv64i.encode
    rw [dispatch_word, opcode_s, hop]
    simp only [decode_s]
    refine uart_dispatch_store ?_ ht hin
    rfl
  rw [hdone, read_reg_eq h, invalidate_eq]
  refine ⟨rfl, ?_, rfl, rfl, rfl, rfl, ?_⟩
  · simp [hpc, State.jump]
  · exact (memory_based (busWrite vm.bus (p - uartBase) ((vm.cpu.regs rs2).setWidth 8))
      vm.bus.ram.mem).symm

end

section
variable {vm : Vm} (h : vm.cpu.regs 0 = 0) {rs1 : BitVec 5} {imm : BitVec 12}
  (hin : console.window (vm.cpu.regs rs1 + wrap imm.toInt) = true) (stdin : List (BitVec 8))
  (counter : BitVec 32)
include hin

theorem console_load (op : LoadOp) (rd : BitVec 5) :
    console.exec (stateOf vm h, consoleOf vm.bus stdin counter) (.base (.load op rd rs1 imm)) =
      (((stateOf vm h).set rd (byteValue op
          (uartRead8 vm.bus.uart (vm.cpu.regs rs1 + wrap imm.toInt - uartBase)).2)).jump
        (vm.cpu.pc + 4),
      consoleOf (busRead vm.bus (vm.cpu.regs rs1 + wrap imm.toInt - uartBase)) stdin counter) := by
  rw [← console_read]
  exact if_pos hin

theorem console_store (op : StoreOp) (rs2 : BitVec 5) :
    console.exec (stateOf vm h, consoleOf vm.bus stdin counter) (.base (.store op rs1 rs2 imm)) =
      ((stateOf vm h).jump (vm.cpu.pc + 4),
      consoleOf (busWrite vm.bus (vm.cpu.regs rs1 + wrap imm.toInt - uartBase)
        ((vm.cpu.regs rs2).setWidth 8)) stdin counter) := by
  rw [← console_write]
  exact if_pos hin

end

/-- One step of a program beside the console. -/
theorem console_step {vm : Vm} (h : Physical vm.cpu) {i : Rv64im.Instr}
    (hword : Rv64im.fetch id (stateOf vm h.settled.zero) = i.encode)
    (hwithin : console.Within InRam (stateOf vm h.settled.zero) i)
    (hshort : ShortSraw (stateOf vm h.settled.zero) i) (stdin : List (BitVec 8))
    (counter : BitVec 32) :
    let x := console.exec (stateOf vm h.settled.zero, consoleOf vm.bus stdin counter) i
    ∃ bus hit, cpuStep vm = refined vm x.1 bus hit ∧ x.2 = consoleOf bus stdin counter := by
  intro x
  by_cases hout : ∀ a, i.access (stateOf vm h.settled.zero) = some a →
    console.window a.addr = false
  · obtain ⟨hit, hstep⟩ := physical_step h hword (hwithin.memory hout) hshort
    have hexec : x = _ := Device.exec_memory hout
    rw [hexec]
    exact ⟨vm.bus, hit, hstep, rfl⟩
  simp only [not_forall, Bool.not_eq_false] at hout
  obtain ⟨a, ha, hin⟩ := hout
  have hbyte := hwithin.accessed a ha
  rw [if_pos hin] at hbyte
  cases i with
  | word => cases ha
  | mul => cases ha
  | base i =>
    cases i with
    | load op rd rs1 imm =>
      cases ha
      have hdone := @uart_load_performs (fetched vm vm.bus) h.settled.zero h.settled.pcWritten rs1
        imm _ op rd hbyte (h.begins.translate vm.bus _ _) hin
      have hexec : x = _ := console_load h.settled.zero hin stdin counter op rd
      rw [hexec]
      exact ⟨_, _, physical_performs h hword hwithin.fetched hdone, rfl⟩
    | store op rs1 rs2 imm =>
      cases ha
      have hsb : op = .sb := by
        cases op with
        | sb => rfl
        | _ => cases hbyte
      subst hsb
      have hdone := @uart_store_performs (fetched vm vm.bus) h.settled.zero h.settled.pcWritten rs1
        imm _ rs2 (h.begins.translate vm.bus _ _) hin
      have hexec : x = _ := console_store h.settled.zero hin stdin counter .sb rs2
      rw [hexec]
      exact ⟨_, _, physical_performs h hword hwithin.fetched hdone, rfl⟩
    | _ => cases ha

/-- The program in its loop is a hart with its console. -/
structure Plays (x : State × Console) (run : Running) : Prop where
  physical : Physical run.vm.cpu
  hart : x.1 = stateOf run.vm physical.settled.zero
  device : x.2 = consoleOf run.vm.bus run.stdin run.counter

/-- Between two steps the loop and the console go on alike. -/
theorem console_turn (run : Running) (ready : Bool) :
    console.turn (consoleOf (cpuStep run.vm).bus run.stdin run.counter) ready =
        consoleOf (run.iterate ready).vm.bus (run.iterate ready).stdin
          (run.iterate ready).counter ∧
      ∃ host, (run.iterate ready).vm = clockTurn (cpuStep run.vm) host := by
  unfold Running.iterate console consoleOf
  dsimp only
  by_cases hturn : run.counter + 1 = 1000
  · rw [if_pos hturn, if_pos hturn]
    refine ⟨?_, .poll _, rfl⟩
    have hhost := host_byte_eq (cpuStep run.vm).bus.uart run.stdin ready
    simp only [← hhost]
    rfl
  · rw [if_neg hturn, if_neg hturn]
    exact ⟨rfl, .quiet, rfl⟩

/-- An iteration is an instruction, and then the console by itself. -/
theorem Plays.iterate {x : State × Console} {run : Running} (h : Plays x run)
    {i : Rv64im.Instr} (ready : Bool) (hword : Rv64im.fetch id x.1 = i.encode)
    (hwithin : console.Within InRam x.1 i) (hshort : ShortSraw x.1 i) :
    Plays (console.step x (i, ready)) (run.iterate ready) := by
  obtain ⟨s, c⟩ := x
  obtain ⟨physical, hart, rfl⟩ := h
  obtain rfl : s = _ := hart
  obtain ⟨bus, hit, hstep, hconsole⟩ :=
    console_step physical hword hwithin hshort run.stdin run.counter
  obtain ⟨hturn, host, hvm⟩ := console_turn run ready
  have hstepped := physical.step hstep
  have hphysical : Physical (run.iterate ready).vm.cpu := by
    rw [hvm]
    exact hstepped.clock host
  have hstate : ∀ vm' (h0 : vm'.cpu.regs 0 = 0), vm' = clockTurn (cpuStep run.vm) host →
      stateOf vm' h0 = stateOf (cpuStep run.vm) hstepped.settled.zero := by
    rintro vm' h0 rfl
    exact clock_turn_state host _ h0
  refine ⟨hphysical, ?_, ?_⟩
  · rw [hstate _ _ hvm, stepped_state hstep]
    rfl
  · rw [← hturn, hstep]
    exact congrArg (console.turn · ready) hconsole

/-- The hart as `main` starts the firmware: at its first byte, with the address
of the device tree in `a1`, and with the images in memory. -/
def bootHart (ram : Memory) (images : Images) : State where
  regs r := if r = 11 then 0x82200000 else 0
  zero := rfl
  pc := 0x80000000
  mem a := (bootRam ram images).mem (a - memBase)

theorem boot_physical (ram : Memory) : Physical (vmBoot ram).cpu := by
  have hmie : ((cpuReset cpuInit memBase).csrs csrMstatus).getLsbD 3 = false := by decide
  have hmprv : ((cpuReset cpuInit memBase).csrs csrMstatus).getLsbD 17 = false := by decide
  exact ⟨⟨rfl, rfl⟩, rfl, hmie, hmprv⟩

theorem boot_plays (ram : Memory) (images : Images) (stdin : List (BitVec 8)) :
    Plays (bootHart ram images, .start stdin)
      { vm := vmBoot (bootRam ram images), counter := 0, stdin := stdin } := by
  refine ⟨boot_physical _, ?_, rfl⟩
  simp only [bootHart, stateOf, State.mk.injEq]
  refine ⟨funext fun r => ?_, rfl, rfl⟩
  by_cases h10 : r = 10
  · subst h10
    rfl
  · exact (if_neg h10).symm

/-- The program executes the firmware it is given. Where the files open and fit,
it loads them and comes to its loop, and while the firmware keeps to RAM and to
single bytes of the UART, any number of its iterations are as many instructions
of the firmware on the hart, fetched from where the images have been loaded:
the registers, the pc and the memory are those of RV64IM, and the console has
been given and has given what those instructions store there and load. -/
theorem firmware_executes {fopen : String → Option (List (BitVec 8))} {images : Images}
    (hopens : Opens fopen images) (hfits : Fits images) (ram : Memory) (stdin : List (BitVec 8))
    (turns : List (Rv64im.Instr × Bool))
    (htraces : console.Traces InRam ShortSraw (bootHart ram images, .start stdin) turns) :
    ∃ vm, mainBoot fopen ram = some (.ok vm) ∧
      Plays (turns.foldl console.step (bootHart ram images, .start stdin))
        ((turns.map Prod.snd).foldl Running.iterate
          { vm := vm, counter := 0, stdin := stdin }) := by
  refine ⟨_, (main_boot_iff fopen ram _).mpr ⟨images, hopens, hfits, rfl⟩, ?_⟩
  have hin : List.Forall₂ (fun t ready => ready = t.2) turns (turns.map Prod.snd) := by
    rw [List.forall₂_map_right_iff]
    exact List.forall₂_same.mpr fun _ _ => rfl
  refine Past.Along.related (fun x run t ready hplays hready hok => ?_) hin htraces
    (boot_plays ram images stdin)
  subst hready
  exact hplays.iterate t.2 hok.1 hok.2.1 hok.2.2

/-- `lui x5, 0x10000; addi x6, x0, 0x48`, then `lbu x7, 5(x5); andi x7, x7, 0x20`
and `beq x7, x0, -8`, until the UART is ready to send, and `sb x6, 0(x5)`. -/
def senderImages : Images :=
  { fw := [0xB7, 0x02, 0x00, 0x10, 0x13, 0x03, 0x80, 0x04, 0x83, 0xC3, 0x52, 0x00,
      0x93, 0xF3, 0x03, 0x02, 0xE3, 0x8C, 0x03, 0xFE, 0x23, 0x80, 0x62, 0x00]
    dtb := []
    kernel := [] }

def senderFiles (path : String) : Option (List (BitVec 8)) :=
  if path = "src/vm/fw_jump.bin" then some senderImages.fw else some []

def senderTurns : List (Rv64im.Instr × Bool) :=
  [(.base (.lui 5 0x10000), false), (.base (.immediate .addi 6 0 0x48), false),
    (.base (.load .lbu 7 5 5), true), (.base (.immediate .andi 7 7 0x20), false),
    (.base (.branch .eq 7 0 0xFFC), true), (.base (.store .sb 5 6 0), false)]

theorem sender_traces :
    console.Traces InRam ShortSraw (bootHart (ramOf []) senderImages, .start []) senderTurns := by
  refine ⟨⟨by decide +kernel, ⟨by decide, fun a ha => ?_⟩, short_other _ (by simp)⟩,
    ⟨by decide +kernel, ⟨by decide +kernel, fun a ha => ?_⟩, short_other _ (by simp)⟩,
    ⟨by decide +kernel, ⟨by decide +kernel, fun a ha => ?_⟩, short_other _ (by simp)⟩,
    ⟨by decide +kernel, ⟨by decide +kernel, fun a ha => ?_⟩, short_other _ (by simp)⟩,
    ⟨by decide +kernel, ⟨by decide +kernel, fun a ha => ?_⟩, short_other _ (by simp)⟩,
    ⟨by decide +kernel, ⟨by decide +kernel, fun a ha => ?_⟩, short_other _ (by simp)⟩, trivial⟩
  all_goals cases ha
  all_goals decide +kernel

theorem sender_executes :
    (senderTurns.foldl console.step
      (bootHart (ramOf []) senderImages, .start [])).2.transmitted = [0x48] ∧
    ∃ vm, mainBoot senderFiles (ramOf []) = some (.ok vm) ∧
      Plays (senderTurns.foldl console.step (bootHart (ramOf []) senderImages, .start []))
        ([false, false, true, false, true, false].foldl Running.iterate
          { vm := vm, counter := 0, stdin := [] }) :=
  ⟨by decide +kernel,
    firmware_executes ⟨by decide, by decide, by decide⟩ ⟨by decide, by decide, by decide⟩
      (ramOf []) [] senderTurns sender_traces⟩

end RiscvVm.Proofs
