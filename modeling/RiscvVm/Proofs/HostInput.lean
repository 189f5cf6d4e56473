import RiscvVm.Proofs.Console

namespace RiscvVm.Proofs

/-- The UART as it is to who reads nothing of its receiver. -/
def deafened (uart : Uart) : Uart :=
  { uart with rxFifo := fun _ => 0, rxHead := 0, rxTail := 0, rxCount := 0 }

/-- Two buses on which the host has done no more than type different bytes. -/
structure SameButInput (bus bus' : Bus) : Prop where
  ram : bus'.ram = bus.ram
  timer : bus'.timer = bus.timer
  transmitted : bus'.transmitted = bus.transmitted
  uart : deafened bus'.uart = deafened bus.uart

/-- The registers that show the receiver: RBR, IIR and LSR. -/
def Hears (uart : Uart) (offset : BitVec 64) : Prop :=
  readsBuffer uart offset = true ∨ offset = uartIir ∨ offset = uartLsr

/-- The next step reads such a register. -/
def HearsHost (vm : Vm) : Prop :=
  ∃ offset, stepRequest vm = some (.read offset) ∧ Hears vm.bus.uart offset

section
variable {uart uart' : Uart} {offset : BitVec 64}

theorem deafened_write (uart : Uart) (offset : BitVec 64) (value : BitVec 8) :
    deafened (uartWrite8 uart offset value).1 =
        deafened (uartWrite8 (deafened uart) offset value).1 ∧
      (uartWrite8 uart offset value).2 = (uartWrite8 (deafened uart) offset value).2 := by
  have hlcr : (deafened uart).lcr = uart.lcr := rfl
  have hier : (deafened uart).ier = uart.ier := rfl
  have htx : (deafened uart).txCount = uart.txCount := rfl
  unfold uartWrite8
  by_cases h0 : offset = 0x00
  · rw [if_pos h0, if_pos h0, hlcr]
    by_cases hdlab : uart.lcr &&& uartLcrDlab ≠ 0
    · rw [if_pos hdlab, if_pos hdlab]
      exact ⟨rfl, rfl⟩
    · rw [if_neg hdlab, if_neg hdlab]
      exact ⟨rfl, rfl⟩
  by_cases h1 : offset = 0x01
  · rw [if_neg h0, if_neg h0, if_pos h1, if_pos h1, hlcr]
    by_cases hdlab : uart.lcr &&& uartLcrDlab ≠ 0
    · rw [if_pos hdlab, if_pos hdlab]
      exact ⟨rfl, rfl⟩
    · rw [if_neg hdlab, if_neg hdlab]
      dsimp only
      rw [hier]
      by_cases hthr : value &&& uartIerThrEmpty = 0
      · rw [if_pos hthr, if_pos hthr]
        dsimp only
        rw [if_neg fun h => h.2.1 hthr, if_neg fun h => h.2.1 hthr]
        exact ⟨rfl, rfl⟩
      · rw [if_neg hthr, if_neg hthr]
        dsimp only
        rw [htx]
        split
        all_goals exact ⟨rfl, rfl⟩
  by_cases hfcr : offset = uartFcr
  · simp only [if_neg h0, if_neg h1, if_pos hfcr]
    refine ⟨?_, trivial⟩
    by_cases hrx : value &&& uartFcrClearRx ≠ 0
    · simp only [if_pos hrx]
      split
      all_goals rfl
    · simp only [if_neg hrx]
      split
      all_goals rfl
  simp only [if_neg h0, if_neg h1, if_neg hfcr]
  repeat' split
  all_goals exact ⟨rfl, rfl⟩

theorem deafened_read (h : ¬ Hears uart offset) :
    deafened (uartRead8 uart offset).1 = deafened (uartRead8 (deafened uart) offset).1 ∧
      (uartRead8 uart offset).2 = (uartRead8 (deafened uart) offset).2 := by
  unfold Hears readsBuffer at h
  simp only [decide_eq_true_eq, not_or, not_and] at h
  obtain ⟨hbuffer, hiir, hlsr⟩ := h
  by_cases h0 : offset = 0
  · have hread : ∀ u : Uart, u.lcr = uart.lcr → uartRead8 u offset = (u, u.dll) := by
      intro u hu
      unfold uartRead8
      rw [if_pos h0, hu, if_pos (hbuffer h0)]
    rw [hread uart rfl, hread (deafened uart) rfl]
    exact ⟨rfl, rfl⟩
  · have hread : ∀ u : Uart, uartRead8 u offset = (u,
        if offset = 0x01 then if u.lcr &&& uartLcrDlab ≠ 0 then u.dlm else u.ier
        else if offset = uartLcr then u.lcr
        else if offset = uartMcr then u.mcr
        else if offset = uartMsr then 0x00
        else if offset = uartScr then u.scr
        else 0) := by
      intro u
      unfold uartRead8
      rw [if_neg h0, if_neg hiir, if_neg hlsr]
      repeat' split
      all_goals rfl
    rw [hread uart, hread (deafened uart)]
    exact ⟨rfl, rfl⟩

theorem deafened_host (uart : Uart) (input : Option (BitVec 8)) :
    deafened (uartHandleHostInput uart input) = deafened uart := by
  unfold uartHandleHostInput
  repeat' split
  all_goals rfl

theorem hears_deafened (h : deafened uart' = deafened uart) :
    Hears uart' offset ↔ Hears uart offset := by
  have hlcr : (deafened uart').lcr = (deafened uart).lcr := congrArg Uart.lcr h
  change uart'.lcr = uart.lcr at hlcr
  unfold Hears readsBuffer
  rw [hlcr]

end

section
variable {cpu : Cpu} {bus bus' : Bus} {p : BitVec 64}

theorem SameButInput.read (h : SameButInput bus bus') {width : Width} (hwide : width ≠ .w8)
    (p : BitVec 64) : (vmBusRead width bus' p).2 = (vmBusRead width bus p).2 := by
  obtain ⟨hram, htimer, _, _⟩ := h
  cases width with
  | w8 => exact absurd rfl hwide
  | w16 => simp [vmBusRead, vmBusRead16, hram]
  | w32 => simp [vmBusRead, vmBusRead32, hram, htimer]
  | w64 => simp [vmBusRead, vmBusRead64, hram, htimer]

theorem SameButInput.word (h : SameButInput bus bus') (p : BitVec 64) :
    vmBusRead64 bus' p = vmBusRead64 bus p :=
  h.read (nofun : Width.w64 ≠ .w8) p

/-- A byte that does not come from the receiver. -/
theorem SameButInput.byte (h : SameButInput bus bus')
    (hno : addrInRange p uartBase uartSize = true → ¬ Hears bus.uart (p - uartBase)) :
    (vmBusRead .w8 bus' p).2 = (vmBusRead .w8 bus p).2 ∧
      SameButInput (vmBusRead .w8 bus p).1 (vmBusRead .w8 bus' p).1 := by
  obtain ⟨ram, timer, uart, transmitted⟩ := bus
  obtain ⟨ram', timer', uart', transmitted'⟩ := bus'
  obtain ⟨rfl, rfl, rfl, huart⟩ := h
  simp only [vmBusRead, vmBusRead8]
  split
  · exact ⟨rfl, rfl, rfl, rfl, huart⟩
  split
  · rename_i hin
    have hears := hno hin
    obtain ⟨hstate, hvalue⟩ := deafened_read hears
    obtain ⟨hstate', hvalue'⟩ := deafened_read (mt (hears_deafened huart).mp hears)
    rw [huart] at hstate' hvalue'
    refine ⟨?_, rfl, rfl, rfl, hstate'.trans hstate.symm⟩
    exact congrArg (BitVec.setWidth 64) (hvalue'.trans hvalue.symm)
  · exact ⟨rfl, rfl, rfl, rfl, huart⟩

theorem SameButInput.write (h : SameButInput bus bus') (width : Width) (p v : BitVec 64) :
    SameButInput (vmBusWrite width bus p v) (vmBusWrite width bus' p v) := by
  obtain ⟨ram, timer, uart, transmitted⟩ := bus
  obtain ⟨ram', timer', uart', transmitted'⟩ := bus'
  obtain ⟨rfl, rfl, rfl, huart⟩ := h
  cases width with
  | w8 =>
    simp only [vmBusWrite, vmBusWrite8]
    split
    · exact ⟨rfl, rfl, rfl, huart⟩
    split
    · obtain ⟨hstate, hsent⟩ := deafened_write uart (p - uartBase) (v.setWidth 8)
      obtain ⟨hstate', hsent'⟩ := deafened_write uart' (p - uartBase) (v.setWidth 8)
      rw [huart] at hstate' hsent'
      refine ⟨rfl, rfl, ?_, hstate'.trans hstate.symm⟩
      dsimp only
      rw [hsent', hsent]
    · exact ⟨rfl, rfl, rfl, huart⟩
  | w16 =>
    simp only [vmBusWrite, vmBusWrite16]
    split
    all_goals exact ⟨rfl, rfl, rfl, huart⟩
  | w32 =>
    simp only [vmBusWrite, vmBusWrite32]
    repeat' split
    all_goals exact ⟨rfl, rfl, rfl, huart⟩
  | w64 =>
    simp only [vmBusWrite, vmBusWrite64]
    repeat' split
    all_goals exact ⟨rfl, rfl, rfl, huart⟩

theorem SameButInput.lockstep (h : SameButInput bus bus') (cpu : Cpu) :
    Lockstep SameButInput cpu bus bus' :=
  lockstep_of_accesses h h.timer (fun hr _ hwide => hr.read hwide) fun hr => hr.write

end

section
variable {vm vm' : Vm}

/-- A step that reads nothing of the receiver. -/
theorem same_but_input_step (h : Paired SameButInput vm vm') (hno : ¬ HearsHost vm) :
    Paired SameButInput (cpuStep vm) (cpuStep vm') := by
  refine h.step (h.bus.lockstep _) fun {bus bus' p} ht hb => ⟨hb.lockstep _, fun hload => ?_⟩
  intro b b' q hq hr
  refine hr.byte fun hin hears => hno ⟨q - uartBase, ?_, ?_⟩
  · unfold stepRequest
    rw [← translate_begin, ht]
    dsimp only
    rw [uartRequest, if_pos hload, toUart, fetched_cpu]
    have hread : cpuReadReg (beginStep vm.cpu) (rs1Of (vmBusRead32 bus p)) =
        cpuReadReg vm.cpu (rs1Of (vmBusRead32 bus p)) := rfl
    have hbus : (fetched vm bus).bus = bus := rfl
    rw [hread, hbus, congrArg Prod.snd hq]
    dsimp only
    rw [if_pos hin]
  · have hwalk := (translate_silent (beginStep vm.cpu) vm.bus vm.cpu.pc .fetch).1
    have hwalk' := (translate_silent (beginStep vm.cpu) bus ((decodeI (vmBusRead32 bus p)).imm +
      cpuReadReg vm.cpu (rs1Of (vmBusRead32 bus p))) .load).1
    rw [ht] at hwalk
    rw [hq] at hwalk'
    rw [← hwalk, ← hwalk']
    exact hears

theorem same_but_input_clock (h : Paired SameButInput vm vm') (host host' : HostTurn) :
    Paired SameButInput (clockTurn vm host) (clockTurn vm' host') := by
  obtain ⟨hram, htimer, hout⟩ := clock_turn_bus vm host
  obtain ⟨hram', htimer', hout'⟩ := clock_turn_bus vm' host'
  have hturn : ∀ (vm : Vm) host, deafened (clockTurn vm host).bus.uart = deafened vm.bus.uart := by
    intro vm host
    cases host with
    | quiet => rfl
    | poll input => exact deafened_host vm.bus.uart input
  refine ⟨?_, ?_, ?_, ?_, ?_⟩
  · unfold clockTurn
    rw [host_cpu, host_cpu]
    unfold vmTick
    dsimp only
    rw [h.cpu, h.bus.timer]
  · rw [hram, hram', h.bus.ram]
  · rw [htimer, htimer', h.bus.timer]
  · rw [hout, hout', h.bus.transmitted]
  · rw [hturn, hturn, h.bus.uart]

/-- What the host types comes to the guest through RBR, IIR and LSR alone: as
long as the guest reads none of them, the CPU, the memory, the clock and the
output do not depend on what is typed and when it is polled. -/
theorem input_unheard (h : Paired SameButInput vm vm') {hosts hosts' : List HostTurn}
    (hlen : hosts.length = hosts'.length)
    (hrun : Past.Along mainLoop (fun vm _ => ¬ HearsHost vm) vm hosts) :
    Paired SameButInput (hosts.foldl mainLoop vm) (hosts'.foldl mainLoop vm') := by
  have hin : List.Forall₂ (fun _ _ => True) hosts hosts' :=
    List.forall₂_iff_get.mpr ⟨hlen, fun _ _ _ => trivial⟩
  refine @Past.Along.related _ _ mainLoop _ _ _ mainLoop _ (Paired SameButInput)
    (fun s t a b hs _ hno => ?_) _ _ hin _ _ hrun h
  rw [main_loop_eq, main_loop_eq]
  exact same_but_input_clock (same_but_input_step hs hno) a b

theorem hears_not (h : (stepRequest vm).all (fun access => !(access matches .read _)) = true) :
    ¬ HearsHost vm := by
  intro ⟨offset, hread, _⟩
  rw [hread] at h
  cases h

end

/-- The program that prints does so whatever is typed. -/
def helloVm : Vm := vmBoot (bootRam (ramOf []) helloImages)

theorem hello_unheard : Paired SameButInput ([.quiet, .quiet, .quiet].foldl mainLoop helloVm)
    ([.poll (some 0x41), .poll none, .poll (some 0x42)].foldl mainLoop helloVm) :=
  input_unheard ⟨rfl, rfl, rfl, rfl, rfl⟩ rfl
    ⟨hears_not (by decide +kernel), hears_not (by decide +kernel), hears_not (by decide +kernel),
      trivial⟩

end RiscvVm.Proofs
