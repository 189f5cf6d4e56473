import RiscvVm.Lib.Rv64a
import RiscvVm.Proofs.Arithmetic
import RiscvVm.Proofs.History

namespace RiscvVm.Proofs
open Rv64a

/-- The word in memory that an AMO finds. -/
def oldWord (width : Width) (bus : Bus) (p : BitVec 64) : BitVec (8 * width.bytes) :=
  ByteMap.read (8 * width.bytes) bus.ram.mem (p - memBase) width.bytes

/-- The word that it leaves there. -/
def newWord (op : AmoOp) (width : Width) (bus : Bus) (p rhs : BitVec 64) :
    BitVec (8 * width.bytes) :=
  op.eval (oldWord width bus p) (rhs.setWidth (8 * width.bytes))

theorem amo_result_eq {w : Nat} (op : AmoOp) (old rhs : BitVec w) :
    amoResult op.funct5 old rhs = some (op.eval old rhs) := by
  cases op with
  | min => exact congrArg some (eval_min old rhs).symm
  | max => exact congrArg some (eval_max old rhs).symm
  | minu => exact congrArg some (eval_minu old rhs).symm
  | maxu => exact congrArg some (eval_maxu old rhs).symm
  | _ => rfl

theorem is_amo_funct5 (op : AmoOp) : isAmo op.funct5 = true := by
  cases op <;> decide

/-- The bus with a word put in RAM at `p`. -/
def withWord (width : Width) (bus : Bus) (p : BitVec 64) (value : BitVec (8 * width.bytes)) : Bus :=
  { bus with ram := { mem := ByteMap.write bus.ram.mem (p - memBase) value width.bytes } }

theorem amo_read_w {bus : Bus} {p : BitVec 64} (h : InRam p 4) :
    atomicW.read bus p = oldWord .w32 bus p := by
  have hr := (ram_range_iff p).mpr (h.mono (by omega))
  simp only [atomicW, vmBusRead32, hr, if_true, memRead32]
  exact mem_read_in_ram bus.ram (by omega) (by omega) h

theorem amo_write_w {bus : Bus} {p : BitVec 64} (h : InRam p 4) (value : BitVec 32) :
    atomicW.write bus p value = withWord .w32 bus p value := by
  have hr := (ram_range_iff p).mpr (h.mono (by omega))
  simp only [atomicW, vmBusWrite32, hr, if_true, memWrite32]
  rw [mem_write_in_ram (n := 4) bus.ram _ (by omega) (by omega) h]
  rfl

/-- An AMO that is not refused, in RAM. -/
theorem amo_done (vm : Vm) {word : BitVec 32} {op : AmoOp} {width : Width} {bus : Bus}
    {p : BitVec 64} (hop : opcodeOf word = Opcode.code .amo) (hf : funct5Of word = op.funct5)
    (hwidth : atomicWidth word = some width)
    (hal : AtomicAligned width (cpuReadReg vm.cpu (rs1Of word)))
    (ht : translateAddress vm.cpu vm.bus (cpuReadReg vm.cpu (rs1Of word)) .store = (bus, .ok p))
    (hram : InRam p width.bytes) :
    dispatchInstruction vm word =
      { cpu := cpuWriteReg (cpuInvalidateReservation vm.cpu p (BitVec.ofNat 8 width.bytes))
          (rdOf word) ((oldWord width bus p).signExtend 64)
        bus := withWord width bus p (newWord op width bus p (cpuReadReg vm.cpu (rs2Of word))) } := by
  have hamo : isAmo (funct5Of word) = true := by rw [hf, is_amo_funct5]
  rw [dispatch_amo_word (of_raw_of_code hop)]
  unfold dispatchAExtension
  rw [decode_a_funct5, decode_a_funct3, if_pos hamo]
  unfold atomicWidth at hwidth
  by_cases h2 : funct3Of word = 0x2
  · rw [if_pos h2] at hwidth ⊢
    cases hwidth
    have hnew := amo_result_eq op (atomicW.read bus p)
      (atomicW.truncate (cpuReadReg vm.cpu (rs2Of word)))
    rw [← hf] at hnew
    rw [amoW, amo_eq vm (decodeA word) atomic_w_width hal ht hnew, amo_read_w hram,
      amo_write_w hram]
    exact congrArg (fun value => Vm.mk (cpuWriteReg _ _ value) _) (sign_extend_word _)
  by_cases h3 : funct3Of word = 0x3
  · rw [if_neg h2, if_pos h3] at hwidth ⊢
    cases hwidth
    have hnew := amo_result_eq op (atomicD.read bus p)
      (atomicD.truncate (cpuReadReg vm.cpu (rs2Of word)))
    rw [← hf] at hnew
    have hread : atomicD.read bus p = oldWord .w64 bus p := bus_read64_in_ram bus hram
    have hwrite : ∀ value, atomicD.write bus p value = withWord .w64 bus p value :=
      fun value => bus_write64_in_ram bus value hram
    rw [amoD, amo_eq vm (decodeA word) atomic_d_width hal ht hnew, hread, hwrite]
    have hext : atomicD.extend (oldWord .w64 bus p) = (oldWord .w64 bus p).signExtend 64 :=
      (BitVec.signExtend_eq _).symm
    have hrhs : atomicD.truncate (cpuReadReg vm.cpu (rs2Of word)) =
        (cpuReadReg vm.cpu (rs2Of word)).setWidth 64 := (BitVec.setWidth_eq _).symm
    rw [hext, hrhs]
    rfl
  · rw [if_neg h2, if_neg h3] at hwidth
    cases hwidth

/-- An AMO that is refused. -/
theorem amo_traps_eq (vm : Vm) {word : BitVec 32} {width : Width} {cause : BitVec 64}
    (hop : opcodeOf word = Opcode.code .amo) (hamo : isAmo (funct5Of word) = true)
    (hwidth : atomicWidth word = some width)
    (h : (¬ AtomicAligned width (cpuReadReg vm.cpu (rs1Of word)) ∧
        cause = excStoreAddrMisaligned) ∨
      (AtomicAligned width (cpuReadReg vm.cpu (rs1Of word)) ∧
        translateAddress vm.cpu vm.bus (cpuReadReg vm.cpu (rs1Of word)) .store =
          (vm.bus, .error cause))) :
    dispatchInstruction vm word = vm.raiseException cause (cpuReadReg vm.cpu (rs1Of word)) := by
  obtain ⟨w, atomic, hs, _, _, _, hdone⟩ := dispatch_atomic vm hop hwidth
  rw [hdone hamo]
  unfold amo
  rw [show (decodeA word).rs1 = rs1Of word from rfl, hs.mask]
  dsimp only
  rcases h with ⟨hal, rfl⟩ | ⟨hal, ht⟩
  · exact if_pos hal
  · unfold AtomicAligned at hal
    rw [if_neg fun hne => hne hal, ht]

theorem atomic_aligned_iff (width : Width) (addr : BitVec 64) :
    AtomicAligned width addr ↔ addr.toNat % width.bytes = 0 := by
  have hmod : ∀ k, k ≤ 3 → (addr &&& BitVec.ofNat 64 (2 ^ k - 1)).toNat = addr.toNat % 2 ^ k := by
    intro k hk
    have hlt : 2 ^ k - 1 < 2 ^ 64 := by
      have := Nat.pow_le_pow_right (show 0 < 2 by omega) hk
      omega
    rw [BitVec.toNat_and, BitVec.toNat_ofNat, Nat.mod_eq_of_lt hlt]
    exact Nat.and_two_pow_sub_one_eq_mod addr.toNat k
  have hbytes : ∃ k ≤ 3, width.bytes = 2 ^ k := by
    cases width with
    | w8 => exact ⟨0, by omega, rfl⟩
    | w16 => exact ⟨1, by omega, rfl⟩
    | w32 => exact ⟨2, by omega, rfl⟩
    | w64 => exact ⟨3, by omega, rfl⟩
  obtain ⟨k, hk, hb⟩ := hbytes
  unfold AtomicAligned
  rw [hb, ← hmod k hk]
  exact BitVec.toNat_inj.symm

/-- A translation keeps the place in the page. -/
theorem translate_offset {cpu : Cpu} {bus bus' : Bus} {va p : BitVec 64} {acc : AccessType}
    (h : translateAddress cpu bus va acc = (bus', .ok p)) : p.toNat % 4096 = va.toNat % 4096 := by
  have hreach : Reaches { cpu := cpu, bus := bus } va acc p := congrArg Prod.snd h
  obtain ⟨frame, hframe, rfl⟩ := (reaches_iff _ _ _ _).mp hreach
  have hlow := frame_low (Prod.ext rfl hframe)
  have hoff := offset_to_nat va
  rw [BitVec.toNat_add]
  omega

theorem atomic_width_cases {word : BitVec 32} {width : Width} (h : atomicWidth word = some width) :
    width = .w32 ∨ width = .w64 := by
  unfold atomicWidth at h
  split at h
  · cases h
    exact Or.inl rfl
  · split at h
    · cases h
      exact Or.inr rfl
    · cases h

/-- An aligned word stays aligned. -/
theorem translate_aligned {cpu : Cpu} {bus bus' : Bus} {va p : BitVec 64} {acc : AccessType}
    {width : Width} (hal : va.toNat % width.bytes = 0)
    (ht : translateAddress cpu bus va acc = (bus', .ok p)) : p.toNat % width.bytes = 0 := by
  have hdvd : width.bytes ∣ 4096 := by cases width <;> decide
  calc p.toNat % width.bytes
      = p.toNat % 4096 % width.bytes := (Nat.mod_mod_of_dvd _ hdvd).symm
    _ = va.toNat % 4096 % width.bytes := by rw [translate_offset ht]
    _ = va.toNat % width.bytes := Nat.mod_mod_of_dvd _ hdvd
    _ = 0 := hal

/-- The bytes of an aligned AMO lie in RAM as soon as the first of them does. -/
theorem amo_in_ram {cpu : Cpu} {bus bus' : Bus} {word : BitVec 32} {va p : BitVec 64}
    {width : Width} (hwidth : atomicWidth word = some width) (hal : va.toNat % width.bytes = 0)
    (ht : translateAddress cpu bus va .store = (bus', .ok p)) (hram : InRam p 1) :
    InRam p width.bytes := by
  refine hram.of_aligned ?_ (translate_aligned hal ht)
  rcases atomic_width_cases hwidth with rfl | rfl
  · exact Or.inl rfl
  · exact Or.inr rfl

/-- The step fetches this AMO; the walk of the fetch leaves `start`. -/
structure AmoStep (vm : Vm) (word : BitVec 32) (op : AmoOp) (width : Width) (start : Bus) :
    Prop where
  fetch : ∃ q, translateAddress vm.cpu vm.bus vm.cpu.pc .fetch = (start, .ok q) ∧
    vmBusRead32 start q = word
  amo : opcodeOf word = Opcode.code .amo
  op : funct5Of word = op.funct5
  width : atomicWidth word = some width

/-- The step does the AMO at `p`, in the memory that the walks leave. -/
structure AmoRetires (vm : Vm) (word : BitVec 32) (op : AmoOp) (width : Width) (walked : Bus)
    (p : BitVec 64) : Prop where
  bus : (cpuStep vm).bus =
    withWord width walked p (newWord op width walked p (cpuReadReg vm.cpu (rs2Of word)))
  regs : (cpuStep vm).cpu.regs =
    (cpuWriteReg vm.cpu (rdOf word) ((oldWord width walked p).signExtend 64)).regs
  reservation : (cpuStep vm).cpu.reservation =
    { vm.cpu.reservation with
      valid := vm.cpu.reservation.valid && !decide (Overlaps vm.cpu.reservation p width.bytes) }
  next : interruptTaken vm = none →
    (cpuStep vm).cpu.pc = vm.cpu.pc + 4 ∧ (cpuStep vm).cpu.priviledge = vm.cpu.priviledge ∧
      ∀ a, (cpuStep vm).cpu.csrs a =
        if a = csrMcycle ∨ a = csrMinstret then vm.cpu.csrs a + 1 else vm.cpu.csrs a

/-- The step enters this trap and does nothing else after its fetch. -/
structure AmoTraps (vm : Vm) (start : Bus) (cause tvalue : BitVec 64) : Prop where
  bus : (cpuStep vm).bus = start
  regs : (cpuStep vm).cpu.regs = vm.cpu.regs
  reservation : (cpuStep vm).cpu.reservation = vm.cpu.reservation
  recorded : Recorded vm (cpuStep vm).cpu cause tvalue
  next : interruptTaken vm = none → (cpuStep vm).cpu =
    { raiseException (beginStep vm.cpu) cause tvalue with pcWritten := false }

/-- The end of a step that takes no interrupt. -/
theorem finish_quiet {vm : Vm} (hword : (fetchedWord vm).isSome) (hint : interruptTaken vm = none) :
    (cpuStep vm).cpu = { (processed vm).cpu with pcWritten := false } := by
  obtain ⟨word, hw⟩ := Option.isSome_iff_exists.mp hword
  have hsel : selected (processed vm).cpu = none := by
    rw [interruptTaken, hw] at hint
    exact hint
  rw [step_of_word hw, finish, on_cpu_cpu, check_interrupts_eq, hsel]

section
variable {vm : Vm} {word : BitVec 32} {op : AmoOp} {width : Width} {start : Bus}

theorem AmoStep.processes (h : AmoStep vm word op width start) :
    processed vm = retire (dispatchInstruction (fetched vm start) word) ∧
      cpuStep vm = finish (processed vm) ∧ (fetchedWord vm).isSome := by
  obtain ⟨q, ht, hword⟩ := h.fetch
  obtain ⟨hp, hstep⟩ := step_of_fetch ht
  rw [hword] at hp
  refine ⟨hp, hstep, ?_⟩
  rw [fetchedWord, ht]
  rfl

theorem AmoStep.retires (h : AmoStep vm word op width start) (hpc : vm.cpu.pcWritten = false)
    (hal : (cpuReadReg vm.cpu (rs1Of word)).toNat % width.bytes = 0) {walked : Bus} {p : BitVec 64}
    (ht : translateAddress vm.cpu start (cpuReadReg vm.cpu (rs1Of word)) .store = (walked, .ok p))
    (hram : InRam p 1) : AmoRetires vm word op width walked p := by
  obtain ⟨hp, hstep, hword⟩ := h.processes
  have hin := amo_in_ram h.width hal ht hram
  have hta := ht
  rw [← translate_begin] at hta
  rw [amo_done (fetched vm start) h.amo h.op h.width ((atomic_aligned_iff _ _).mpr hal) hta hin]
    at hp
  constructor
  · rw [hstep, hp, (finish_retire _).2]
    rfl
  · rw [hstep, hp, finish_retire_regs, write_reg_eq, write_reg_eq]
    simp only [invalidate_regs]
    rfl
  · rw [hstep, hp, (finish_retire _).1, write_reg_reservation, fetched_cpu, invalidate_begin,
      invalidate_overlaps vm.cpu (Width.bytes_le width) (Or.inl (hram.mono (Nat.zero_le 1)))]
  · intro hint
    rw [finish_quiet hword hint, hp, retire_cpu]
    have htaken : (fetched vm start).cpu.trapTaken = false := rfl
    have hwritten : (fetched vm start).cpu.pcWritten = false := hpc
    simp only [write_reg_trap_taken, invalidate_trap_taken, htaken, write_reg_pc_written,
      invalidate_pc_written, hwritten, Cpu.setCsr, write_reg_csrs, invalidate_csrs, write_reg_pc,
      invalidate_pc, write_reg_priviledge, invalidate_priviledge, Bool.false_eq_true, if_false]
    exact ⟨rfl, rfl, counted_csrs vm.cpu⟩

theorem AmoStep.traps (h : AmoStep vm word op width start) {cause tvalue : BitVec 64}
    (hc : cause.toNat < 64)
    (hd : dispatchInstruction (fetched vm start) word =
      (fetched vm start).raiseException cause tvalue) : AmoTraps vm start cause tvalue := by
  obtain ⟨hp, hstep, hword⟩ := h.processes
  have htaken : ((fetched vm start).raiseException cause tvalue).cpu.trapTaken = true :=
    raise_exception_taken _ _ _
  rw [hd, retire_trapped htaken] at hp
  have hframe := raise_exception_frame (beginStep vm.cpu) cause tvalue
  have hcheck := check_interrupts_frame (processed vm).cpu
  have hcpu : (processed vm).cpu = raiseException (beginStep vm.cpu) cause tvalue := by rw [hp]; rfl
  rw [hcpu] at hcheck
  refine ⟨?_, ?_, ?_, ?_, fun hint => ?_⟩
  · rw [hstep, hp]
    rfl
  · rw [hstep, finish, on_cpu_cpu, hcpu]
    exact hcheck.regs.trans hframe.regs
  · rw [hstep, finish, on_cpu_cpu, hcpu]
    exact hcheck.reservation.trans hframe.reservation
  · rw [hstep, finish, on_cpu_cpu, hcpu]
    exact (raise_recorded vm hc tvalue).2
  · rw [finish_quiet hword hint, hcpu]

end

/-- An AMO, whatever registers it names: aligned and translated to RAM it puts
its result there and the old word in `rd`, and takes the reservation it
overlaps. Otherwise it traps on its address. Nothing else changes except
Accessed and Dirty bits of the walks. -/
theorem amo_step {vm : Vm} (hr : Reachable vm) {word : BitVec 32} {op : AmoOp} {width : Width}
    {start : Bus} (h : AmoStep vm word op width start) :
    MarksOnly vm.bus start ∧
      ((cpuReadReg vm.cpu (rs1Of word)).toNat % width.bytes = 0 → ∀ walked p,
        translateAddress vm.cpu start (cpuReadReg vm.cpu (rs1Of word)) .store = (walked, .ok p) →
          InRam p 1 → MarksOnly start walked ∧ AmoRetires vm word op width walked p) ∧
      ((cpuReadReg vm.cpu (rs1Of word)).toNat % width.bytes ≠ 0 →
        AmoTraps vm start excStoreAddrMisaligned (cpuReadReg vm.cpu (rs1Of word))) ∧
      ((cpuReadReg vm.cpu (rs1Of word)).toNat % width.bytes = 0 → ∀ walked e,
        translateAddress vm.cpu start (cpuReadReg vm.cpu (rs1Of word)) .store =
          (walked, .error e) →
            AmoTraps vm start excStorePageFault (cpuReadReg vm.cpu (rs1Of word))) := by
  have hamo : isAmo (funct5Of word) = true := by rw [h.op, is_amo_funct5]
  refine ⟨?_, fun hal walked p ht hram => ⟨?_, ?_⟩, fun hal => ?_, fun hal walked e ht => ?_⟩
  · obtain ⟨q, ht, _⟩ := h.fetch
    have hmarks := translate_marks vm.cpu vm.bus vm.cpu.pc .fetch
    rwa [ht] at hmarks
  · have hmarks := translate_marks vm.cpu start (cpuReadReg vm.cpu (rs1Of word)) .store
    rwa [ht] at hmarks
  · exact h.retires (reachable_settled hr).pcWritten hal ht hram
  · refine h.traps (by decide) (amo_traps_eq (fetched vm start) h.amo hamo h.width (Or.inl ⟨?_, rfl⟩))
    rwa [atomic_aligned_iff]
  · obtain ⟨hb, he⟩ := translate_error ht
    rw [hb, he, ← translate_begin] at ht
    exact h.traps (by decide) (amo_traps_eq (fetched vm start) h.amo hamo h.width
      (Or.inr ⟨(atomic_aligned_iff _ _).mpr hal, ht⟩))

/-- `amomaxu.w x5, x10, (x11)` on a negative word, as the first instruction. -/
theorem amo_step_maxu :
    (cpuStep (vmBoot (ramOf [(0, 0xE0A5A2AF), (0x2200000, 0x80000005)]))).cpu.regs 5 =
      0xFFFFFFFF80000005 := by
  have hamo : AmoStep (vmBoot (ramOf [(0, 0xE0A5A2AF), (0x2200000, 0x80000005)])) 0xE0A5A2AF .maxu
      .w32 (vmBoot (ramOf [(0, 0xE0A5A2AF), (0x2200000, 0x80000005)])).bus :=
    ⟨⟨_, translate_machine (by decide) _ _, by decide⟩, by decide, by decide,
      by decide⟩
  obtain ⟨_, hdone, _⟩ := amo_step (.boot _) hamo
  obtain ⟨_, hretires⟩ := hdone (by decide) _ _
    (translate_machine (by decide) _ _) (by decide)
  rw [hretires.regs]
  decide

end RiscvVm.Proofs
