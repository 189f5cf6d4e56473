import RiscvVm.Proofs.Handlers
import RiscvVm.Proofs.Bytewise
import RiscvVm.Proofs.Interrupts
import RiscvVm.Machine

namespace RiscvVm.Proofs
open Rv64i

/-- What a hart is to RV64I. The bytes of RAM are its memory. -/
def stateOf (vm : Vm) (h : vm.cpu.regs 0 = 0) : State :=
  { regs := vm.cpu.regs
    zero := h
    pc := vm.cpu.pc
    mem := fun a => vm.bus.ram.mem (a - memBase) }

/-- What an instruction has made of the machine, up to its retirement: it has
taken the hart to `s`, and `bus` with the memory of `s` is the bus. The
reservation is lost when the instruction has hit it. -/
structure Performs (cpu : Cpu) (done : Vm) (s : State) (bus : Bus) (hit : Bool) : Prop where
  regs : done.cpu.regs = s.regs
  next : (if done.cpu.pcWritten then done.cpu.pc else done.cpu.pc + 4) = s.pc
  csrs : done.cpu.csrs = cpu.csrs
  priviledge : done.cpu.priviledge = cpu.priviledge
  taken : done.cpu.trapTaken = cpu.trapTaken
  reservation : done.cpu.reservation =
    { cpu.reservation with valid := cpu.reservation.valid && !hit }
  bus : done.bus = { bus with ram := { mem := fun a => s.mem (memBase + a) } }

theorem read_reg_eq {cpu : Cpu} (h : cpu.regs 0 = 0) (r : BitVec 5) :
    cpuReadReg cpu r = cpu.regs r := by
  unfold cpuReadReg
  split
  · rename_i hr
    rw [hr, h]
  · rfl

theorem memory_based (bus : Bus) (m : BitVec 64 → BitVec 8) :
    { bus with ram := { mem := fun a => m (memBase + a - memBase) } } =
      { bus with ram := { mem := m } } := by
  have hmem : (fun a => m (memBase + a - memBase)) = m := by
    funext a
    rw [BitVec.add_comm, BitVec.add_sub_cancel]
  rw [hmem]

theorem keep_reservation (r : Reservation) : { r with valid := r.valid && !false } = r := by
  rw [Bool.not_false, Bool.and_true]

section
variable {vm : Vm} (h : vm.cpu.regs 0 = 0)

theorem performs_write (hpc : vm.cpu.pcWritten = false) (rd : BitVec 5) (value : BitVec 64) :
    Performs vm.cpu (vm.onCpu (cpuWriteReg · rd value))
      (((stateOf vm h).set rd value).jump (vm.cpu.pc + 4)) vm.bus false := by
  refine ⟨?_, ?_, ?_, ?_, ?_, ?_, ?_⟩
  · exact funext fun r => write_reg_regs vm.cpu rd r value
  · rw [on_cpu_cpu, write_reg_pc_written, hpc, write_reg_pc]
    rfl
  · exact write_reg_csrs _ _ _
  · exact write_reg_priviledge _ _ _
  · exact write_reg_trap_taken _ _ _
  · rw [on_cpu_cpu, write_reg_reservation, keep_reservation]
  · exact (memory_based vm.bus vm.bus.ram.mem).symm

theorem performs_link (rd : BitVec 5) (value target : BitVec 64) :
    Performs vm.cpu
      (vm.onCpu fun cpu => { cpuWriteReg cpu rd value with pc := target, pcWritten := true })
      (((stateOf vm h).set rd value).jump target) vm.bus false := by
  refine ⟨?_, rfl, ?_, ?_, ?_, ?_, ?_⟩
  · exact funext fun r => write_reg_regs vm.cpu rd r value
  · exact write_reg_csrs _ _ _
  · exact write_reg_priviledge _ _ _
  · exact write_reg_trap_taken _ _ _
  · rw [on_cpu_cpu, write_reg_reservation, keep_reservation]
  · exact (memory_based vm.bus vm.bus.ram.mem).symm

theorem performs_branch (hpc : vm.cpu.pcWritten = false) (p : Prop) [Decidable p]
    (target : BitVec 64) :
    Performs vm.cpu
      (vm.onCpu fun cpu => if p then { cpu with pc := target, pcWritten := true } else cpu)
      ((stateOf vm h).jump (if p then target else vm.cpu.pc + 4)) vm.bus false := by
  have hbus := (memory_based vm.bus vm.bus.ram.mem).symm
  have hres := (keep_reservation vm.cpu.reservation).symm
  by_cases hp : p
  · simp only [Vm.onCpu, if_pos hp]
    exact ⟨rfl, rfl, rfl, rfl, rfl, hres, hbus⟩
  · simp only [Vm.onCpu, if_neg hp]
    refine ⟨rfl, ?_, rfl, rfl, rfl, hres, hbus⟩
    rw [hpc]
    rfl

theorem performs_store (hpc : vm.cpu.pcWritten = false) {p : BitVec 64} {n : Nat} (hn : n ≤ 8)
    (hram : InRam p n) (value : BitVec 64) :
    Performs vm.cpu
      { cpu := cpuInvalidateReservation vm.cpu p (BitVec.ofNat 8 n)
        bus := stored vm.bus p value n }
      { (stateOf vm h).jump (vm.cpu.pc + 4) with
        mem := ByteMap.write (stateOf vm h).mem p value n }
      vm.bus (decide (Overlaps vm.cpu.reservation p n)) := by
  refine ⟨?_, ?_, ?_, ?_, ?_, ?_, ?_⟩
  · exact invalidate_regs _ _ _
  · rw [invalidate_pc_written, hpc, invalidate_pc]
    rfl
  · exact invalidate_csrs _ _ _
  · exact invalidate_priviledge _ _ _
  · exact invalidate_trap_taken _ _ _
  · exact invalidate_overlaps vm.cpu hn (Or.inl (hram.mono (Nat.zero_le n)))
  · have hmem := ByteMap.write_based vm.bus.ram.mem memBase p value n
    dsimp only [stateOf]
    rw [hmem, memory_based]
    rfl

end

def kindOf (a : Rv64i.Access) : AccessType := if a.store then .store else .load

/-- The bus that the data access of an instruction leaves by its walk. -/
def walkedBus (vm : Vm) (i : Instr) : Bus :=
  match access vm.cpu.regs i with
  | none => vm.bus
  | some a => (translateAddress vm.cpu vm.bus a.addr (kindOf a)).1

/-- Where the instruction finds the byte at a virtual address. -/
def placeOf (vm : Vm) (i : Instr) (va : BitVec 64) : BitVec 64 :=
  match access vm.cpu.regs i with
  | none => va
  | some a =>
    match (translateAddress vm.cpu vm.bus va (kindOf a)).2 with
    | .ok p => p
    | .error _ => va

/-- Whether the instruction is a store to reserved bytes. -/
def storeHits (vm : Vm) (i : Instr) : Bool :=
  match access vm.cpu.regs i with
  | none => false
  | some a => a.store && decide (Overlaps vm.cpu.reservation (placeOf vm i a.addr) a.bytes)

/-- The access of the instruction, if any, is naturally aligned, its
translation succeeds and its bytes are in RAM. -/
def AccessOk (vm : Vm) (i : Instr) : Prop :=
  ∀ a, access vm.cpu.regs i = some a → a.addr.toNat % a.bytes = 0 ∧
    ∃ p, Reaches vm a.addr (kindOf a) p ∧ InRam p a.bytes

/-- An aligned access stays in its page. -/
theorem aligned_in_page {va : BitVec 64} {n : Nat} (hn : n = 1 ∨ n = 2 ∨ n = 4 ∨ n = 8)
    (ha : va.toNat % n = 0) : ¬ CrossesPage va n := by
  unfold CrossesPage
  rw [offset_to_nat]
  rcases hn with rfl | rfl | rfl | rfl <;> omega

/-- What `AccessOk` says of an instruction with an access. -/
theorem access_ok {vm : Vm} {i : Instr} (hok : AccessOk vm i) {a : Rv64i.Access}
    (ha : access vm.cpu.regs i = some a) (hn : a.bytes = 1 ∨ a.bytes = 2 ∨ a.bytes = 4 ∨ a.bytes = 8) :
    ∃ p, translateAddress vm.cpu vm.bus a.addr (kindOf a) = (walkedBus vm i, .ok p) ∧
      InRam p a.bytes ∧ placeOf vm i a.addr = p ∧
      ∀ k < a.bytes, placeOf vm i (a.addr + BitVec.ofNat 64 k) = p + BitVec.ofNat 64 k := by
  obtain ⟨hal, p, hp, hram⟩ := hok a ha
  have hplace : ∀ va q, Reaches vm va (kindOf a) q → placeOf vm i va = q := by
    intro va q hq
    unfold placeOf
    rw [ha]
    dsimp only
    rw [show (translateAddress vm.cpu vm.bus va (kindOf a)).2 = .ok q from hq]
  have hbytes := (bytes_reach_iff hp (n := a.bytes) (by omega)).mpr
    fun hcross => absurd hcross (aligned_in_page hn hal)
  refine ⟨p, ?_, hram, hplace _ _ hp, fun k hk => hplace _ _ (hbytes k hk)⟩
  unfold walkedBus
  rw [ha]
  exact Prod.ext rfl hp

theorem load_bytes_cases (op : LoadOp) :
    op.bytes = 1 ∨ op.bytes = 2 ∨ op.bytes = 4 ∨ op.bytes = 8 := by cases op <;> decide

theorem store_bytes_cases (op : StoreOp) :
    op.bytes = 1 ∨ op.bytes = 2 ∨ op.bytes = 4 ∨ op.bytes = 8 := by cases op <;> decide

section
variable {vm : Vm} (h : vm.cpu.regs 0 = 0) (rs1 : BitVec 5) (imm : BitVec 12)
  {place : BitVec 64 → BitVec 64} {bus : Bus} {p : BitVec 64}

theorem load_performs (hpc : vm.cpu.pcWritten = false) (op : LoadOp) (rd : BitVec 5)
    (ht : translateAddress vm.cpu vm.bus (vm.cpu.regs rs1 + wrap imm.toInt) .load = (bus, .ok p))
    (hram : InRam p op.bytes)
    (hplace : ∀ k < op.bytes, place (vm.cpu.regs rs1 + wrap imm.toInt + BitVec.ofNat 64 k) =
      p + BitVec.ofNat 64 k) :
    Performs vm.cpu (dispatchInstruction vm (encode (.load op rd rs1 imm)))
      (exec place (stateOf { vm with bus := bus } h) (.load op rd rs1 imm)) bus false := by
  have hvalue : op.value place (stateOf { vm with bus := bus } h).mem
      (vm.cpu.regs rs1 + wrap imm.toInt) = loaded op bus.ram.mem (p - memBase) := by
    rw [load_value_at op _ hplace]
    simp only [stateOf, ByteMap.read_based]
    rfl
  rw [← read_reg_eq h rs1] at ht
  rw [dispatch_load vm rd rs1 op imm ht hram, ← hvalue]
  exact @performs_write { vm with bus := bus } h hpc rd _

theorem store_performs (hpc : vm.cpu.pcWritten = false) (op : StoreOp) (rs2 : BitVec 5)
    (ht : translateAddress vm.cpu vm.bus (vm.cpu.regs rs1 + wrap imm.toInt) .store = (bus, .ok p))
    (hram : InRam p op.bytes)
    (hplace : ∀ k < op.bytes, place (vm.cpu.regs rs1 + wrap imm.toInt + BitVec.ofNat 64 k) =
      p + BitVec.ofNat 64 k) :
    Performs vm.cpu (dispatchInstruction vm (encode (.store op rs1 rs2 imm)))
      (exec place (stateOf { vm with bus := bus } h) (.store op rs1 rs2 imm)) bus
      (decide (Overlaps vm.cpu.reservation p op.bytes)) := by
  have hmem := store_bytes_at (stateOf { vm with bus := bus } h).mem (vm.cpu.regs rs2) hplace
  have hn : op.bytes ≤ 8 := by cases op <;> decide
  rw [← read_reg_eq h rs1] at ht
  have hdone := @performs_store { vm with bus := bus } h hpc p op.bytes hn hram (vm.cpu.regs rs2)
  rw [← hmem] at hdone
  rw [dispatch_store vm rs1 rs2 op imm ht hram, read_reg_eq h]
  exact hdone

end

/-- Every instruction of RV64I does to the machine what it does to the hart. -/
theorem dispatch_performs {vm : Vm} (h : vm.cpu.regs 0 = 0) (hpc : vm.cpu.pcWritten = false)
    (i : Instr) (hok : AccessOk vm i) :
    Performs vm.cpu (dispatchInstruction vm (encode i))
      (exec (placeOf vm i) (stateOf { vm with bus := walkedBus vm i } h) i) (walkedBus vm i)
      (storeHits vm i) := by
  have hread := read_reg_eq h
  cases i with
  | lui rd imm =>
    rw [dispatch_lui]
    exact performs_write h hpc _ _
  | auipc rd imm =>
    rw [dispatch_auipc]
    exact performs_write h hpc _ _
  | jal rd imm =>
    rw [dispatch_jal]
    exact performs_link h _ _ _
  | jalr rd rs1 imm =>
    rw [dispatch_jalr, hread]
    exact performs_link h _ _ _
  | branch cond rs1 rs2 imm =>
    rw [dispatch_branch, hread, hread]
    exact performs_branch h hpc _ _
  | load op rd rs1 imm =>
    obtain ⟨p, ht, hram, _, hbytes⟩ := access_ok hok rfl (load_bytes_cases op)
    exact load_performs h rs1 imm hpc op rd ht hram hbytes
  | store op rs1 rs2 imm =>
    obtain ⟨p, ht, hram, hp, hbytes⟩ := access_ok hok rfl (store_bytes_cases op)
    have hdone := store_performs h rs1 imm hpc op rs2 ht hram hbytes
    rw [← hp] at hdone
    exact hdone
  | immediate op rd rs1 imm =>
    rw [dispatch_immediate, hread]
    exact performs_write h hpc _ _
  | shift op rd rs1 shamt =>
    rw [dispatch_shift, hread]
    exact performs_write h hpc _ _
  | register op rd rs1 rs2 =>
    rw [dispatch_register, hread, hread]
    exact performs_write h hpc _ _

/-- What holds of the CPU between two steps. -/
structure Settled (cpu : Cpu) : Prop where
  zero : cpu.regs 0 = 0
  pcWritten : cpu.pcWritten = false

theorem step_settled {vm : Vm} (h : Settled vm.cpu) : Settled (cpuStep vm).cpu := by
  rcases step_cases vm with ⟨_, hp, hs⟩ | ⟨bus, p, done, ht, hx, hp, hs⟩
  · have hframe := raise_exception_frame (beginStep vm.cpu) excInstrPageFault vm.cpu.pc
    rw [hs, hp]
    exact ⟨(congrFun hframe.regs 0).trans h.zero, hframe.pcWritten.trans h.pcWritten⟩
  · have hframe := check_interrupts_frame (retire done).cpu
    rw [hs, hp]
    refine ⟨?_, rfl⟩
    show (cpuCheckInterrupts (retire done).cpu).regs 0 = 0
    rw [hframe.regs, retire_regs, executes_regs hx (Or.inl rfl)]
    exact h.zero

theorem tick_settled {vm : Vm} (h : Settled vm.cpu) (host : HostTurn) :
    Settled (hostInput (vmTick vm) host).cpu := by
  have hpending : ∀ (cpu : Cpu) cause pending, Settled cpu →
      Settled (cpuSetInterruptPending cpu cause pending) := by
    intro cpu cause pending hc
    unfold cpuSetInterruptPending
    split <;> exact ⟨hc.zero, hc.pcWritten⟩
  have htick : Settled (vmTick vm).cpu := hpending _ _ _ (hpending _ _ _ h)
  cases host with
  | quiet => exact htick
  | poll input => exact htick

theorem reachable_settled {vm : Vm} (h : Reachable vm) : Settled vm.cpu := by
  induction h with
  | init ram => exact ⟨rfl, rfl⟩
  | boot ram => exact ⟨rfl, rfl⟩
  | iterate vm host _ ih => exact tick_settled (step_settled ih) host

/-- The bus that the fetch of a step leaves by its walk. -/
def fetchBus (vm : Vm) : Bus := (translateAddress vm.cpu vm.bus vm.cpu.pc .fetch).1

/-- The machine as the instruction of the step finds it. -/
def ready (vm : Vm) : Vm := fetched vm (fetchBus vm)

/-- The machine one retired instruction later, with the hart in `s`. -/
def refined (vm : Vm) (s : State) (bus : Bus) (hit : Bool) : Vm :=
  { cpu :=
      { regs := s.regs
        csrs := fun a =>
          if a = csrMcycle ∨ a = csrMinstret then vm.cpu.csrs a + 1 else vm.cpu.csrs a
        pc := s.pc
        priviledge := vm.cpu.priviledge
        reservation := { vm.cpu.reservation with valid := vm.cpu.reservation.valid && !hit }
        trapTaken := false
        pcWritten := false }
    bus := { bus with ram := { mem := fun a => s.mem (memBase + a) } } }

/-- The walk between the two has set at most the Accessed and Dirty bits of one
leaf entry. -/
def MarksOnly (bus bus' : Bus) : Prop :=
  bus' = bus ∨ ∃ acc addr, Sv39.Leaf (vmBusRead64 bus addr) ∧
    WordSet bus bus' addr (Sv39.mark acc (vmBusRead64 bus addr))

theorem translate_marks (cpu : Cpu) (bus : Bus) (va : BitVec 64) (acc : AccessType) :
    MarksOnly bus (translateAddress cpu bus va acc).1 := by
  rcases ht : translateAddress cpu bus va acc with ⟨bus', e | p⟩
  · exact Or.inl (translate_error ht).1
  · rcases translate_ok ht with ⟨hb, _⟩ | ⟨_, addr, _, _, hleaf, _, hset⟩
    · exact Or.inl hb
    · exact Or.inr ⟨_, addr, hleaf, hset⟩

theorem counted_csrs (cpu : Cpu) (a : BitVec 12) :
    ((beginStep cpu).setCsr csrMinstret ((beginStep cpu).csrs csrMinstret + 1)).csrs a =
      if a = csrMcycle ∨ a = csrMinstret then cpu.csrs a + 1 else cpu.csrs a := by
  have hne : csrMinstret ≠ csrMcycle := by decide
  simp only [beginStep, set_csr_csrs, if_neg hne]
  by_cases hc : a = csrMcycle
  · rw [if_pos (Or.inl hc), hc, if_neg hne.symm, if_pos rfl]
  · by_cases hi : a = csrMinstret
    · rw [if_pos (Or.inr hi), hi, if_pos rfl]
    · rw [if_neg hi, if_neg hc, if_neg (not_or.mpr ⟨hc, hi⟩)]

/-- The end of a step that takes no interrupt. -/
theorem finish_performs {vm done : Vm} {s : State} {bus : Bus} {hit : Bool}
    (h : Performs (beginStep vm.cpu) done s bus hit) (hint : selected (retire done).cpu = none) :
    finish (retire done) = refined vm s bus hit := by
  have htaken : done.cpu.trapTaken = false := h.taken
  have hcheck : cpuCheckInterrupts (retire done).cpu = (retire done).cpu := by
    rw [check_interrupts_eq, hint]
  have hcsrs : (fun a => if a = csrMinstret then done.cpu.csrs csrMinstret + 1 else
      done.cpu.csrs a) = (refined vm s bus hit).cpu.csrs := by
    rw [h.csrs]
    exact funext fun a => counted_csrs vm.cpu a
  have hcpu : (finish (retire done)).cpu = (refined vm s bus hit).cpu := by
    rw [finish, on_cpu_cpu, hcheck, retire_cpu]
    simp only [Cpu.setCsr, htaken, Bool.false_eq_true, if_false, hcsrs, h.next, h.regs,
      h.priviledge, h.reservation]
    rfl
  have hbus : (finish (retire done)).bus = (refined vm s bus hit).bus := h.bus
  exact congr (congrArg Vm.mk hcpu) hbus

/-- A step that fetches an instruction of RV64I and takes no interrupt is that
instruction, executed on the hart the machine is, with memory as its walks
leave it. Besides, it counts the cycle and the instruction, and a store takes
the reservation it overlaps. -/
theorem step_refines_rv64i {vm : Vm} (h : Reachable vm) {i : Instr}
    (hword : fetchedWord vm = some (encode i)) (hok : AccessOk (ready vm) i)
    (hint : interruptTaken vm = none) :
    cpuStep vm = refined vm
        (exec (placeOf (ready vm) i)
          (stateOf { ready vm with bus := walkedBus (ready vm) i } (reachable_settled h).zero) i)
        (walkedBus (ready vm) i) (storeHits (ready vm) i) ∧
      (cpuStep vm).cpu.regs 0 = 0 ∧
      MarksOnly vm.bus (fetchBus vm) ∧ MarksOnly (fetchBus vm) (walkedBus (ready vm) i) := by
  have hset := reachable_settled h
  obtain ⟨bus, p, ht, hfetch⟩ := fetched_word_some hword
  have hbus : fetchBus vm = bus := congrArg Prod.fst ht
  subst hbus
  obtain ⟨hp, hs⟩ := step_of_fetch ht
  rw [hfetch] at hp
  have hperf := @dispatch_performs (ready vm) hset.zero hset.pcWritten i hok
  have hsel : selected (retire (dispatchInstruction (ready vm) (encode i))).cpu = none := by
    unfold interruptTaken at hint
    rw [hword, hp] at hint
    exact hint
  refine ⟨?_, (step_settled hset).zero, translate_marks _ _ _ _, ?_⟩
  · rw [hs, hp]
    exact finish_performs hperf hsel
  · unfold walkedBus
    split
    · exact Or.inl rfl
    · exact translate_marks _ _ _ _

/-- `auipc x5, 0; sd x5, 32(x5)`, with the first instruction executed. -/
def storeProgram : Vm := mainLoop (vmInit (ramOf [(0, 0x0252B02300000297)])) .quiet

theorem step_refines_rv64i_store : ∃ s bus hit,
    cpuStep storeProgram = refined storeProgram s bus hit ∧ s.pc = 0x80000008 ∧
      s.mem 0x80000023 = 0x80 := by
  have hok : AccessOk (ready storeProgram) (.store .sd 5 5 0x20) := by
    intro a ha
    cases ha
    refine ⟨by decide, 0x80000020, ?_, by decide⟩
    exact translated_of_to_option (by decide)
  exact ⟨_, _, _, (step_refines_rv64i (.iterate _ .quiet (.init _)) (by decide) hok
    (by decide)).1, by decide, by decide⟩

end RiscvVm.Proofs
