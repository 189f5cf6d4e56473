import RiscvVm.Proofs.Lenses
import RiscvVm.Proofs.Atomics
import RiscvVm.Proofs.Visited

namespace RiscvVm.Proofs

/-- LB and LBU. -/
def IsByteLoad (word : BitVec 32) : Prop :=
  opcodeOf word = Opcode.code .load ∧ (funct3Of word = 0 ∨ funct3Of word = 4)

instance (word : BitVec 32) : Decidable (IsByteLoad word) := inferInstanceAs (Decidable (_ ∧ _))

/-- The reads of an atomic width are those of the bus. -/
structure ReadsWidth {w : Nat} (atomic : AtomicWidth w) (width : Width) : Prop where
  reads : ∀ bus p, atomic.read bus p = (vmBusRead width bus p).2.setWidth w
  wide : width ≠ .w8

theorem atomic_w_reads : ReadsWidth atomicW .w32 := by
  refine ⟨fun bus p => ?_, nofun⟩
  simp [atomicW, vmBusRead]

theorem atomic_d_reads : ReadsWidth atomicD .w64 := by
  refine ⟨fun bus p => ?_, nofun⟩
  simp [atomicD, vmBusRead]

/-- Two machines with one CPU and related buses. -/
structure Paired (R : Bus → Bus → Prop) (vm vm' : Vm) : Prop where
  cpu : vm'.cpu = vm.cpu
  bus : R vm.bus vm'.bus

/-- A load of this width gives the same on both buses. -/
def SameLoad (R : Bus → Bus → Prop) (cpu : Cpu) (bus : Bus) (width : Width) (va : BitVec 64) :
    Prop :=
  ∀ b b' p, translateAddress cpu bus va .load = (b, .ok p) → R b b' →
    (vmBusRead width b' p).2 = (vmBusRead width b p).2 ∧
      R (vmBusRead width b p).1 (vmBusRead width b' p).1

/-- The CPU cannot tell the two buses apart: whatever it translates, and then
reads or writes there, is the same on both and keeps them related. Only the
loads of bytes, which may read a device, are left out. -/
structure Lockstep (R : Bus → Bus → Prop) (cpu : Cpu) (bus bus' : Bus) : Prop where
  related : R bus bus'
  timer : bus'.timer = bus.timer
  translate : ∀ va acc,
    (∃ e, translateAddress cpu bus va acc = (bus, .error e) ∧
      translateAddress cpu bus' va acc = (bus', .error e)) ∨
    ∃ b b' p, translateAddress cpu bus va acc = (b, .ok p) ∧
      translateAddress cpu bus' va acc = (b', .ok p) ∧ R b b'
  read : ∀ {va acc b b' p width}, translateAddress cpu bus va acc = (b, .ok p) → R b b' →
    width ≠ .w8 → (vmBusRead width b' p).2 = (vmBusRead width b p).2
  write : ∀ {va b b' p}, translateAddress cpu bus va .store = (b, .ok p) → R b b' →
    ∀ width v, R (vmBusWrite width b p v) (vmBusWrite width b' p v)

section
variable {R : Bus → Bus → Prop} {cpu : Cpu} {bus bus' : Bus}

/-- Buses that accesses to memory do not tell apart are in lockstep under any CPU:
walks are such accesses. -/
theorem lockstep_of_accesses (hb : R bus bus') (htimer : bus'.timer = bus.timer)
    (hread : ∀ {b b'}, R b b' → ∀ {width}, width ≠ .w8 → ∀ p,
      (vmBusRead width b' p).2 = (vmBusRead width b p).2)
    (hwrite : ∀ {b b'}, R b b' → ∀ width p v,
      R (vmBusWrite width b p v) (vmBusWrite width b' p v)) : Lockstep R cpu bus bus' where
  related := hb
  timer := htimer
  translate := by
    intro va acc
    have hword : ∀ p, vmBusRead64 bus' p = vmBusRead64 bus p :=
      hread hb (nofun : Width.w64 ≠ .w8)
    have hsame : SameReads cpu bus bus' va := by
      intro a _
      rw [hword]
      exact fun _ _ _ => rfl
    obtain ⟨r, hr, hr'⟩ | ⟨p, a, _, _, hr, hr'⟩ := translate_visited hsame acc
    · cases r with
      | error e => exact Or.inl ⟨e, hr, hr'⟩
      | ok p => exact Or.inr ⟨bus, bus', p, hr, hr', hb⟩
    · refine Or.inr ⟨_, _, p, hr, hr', ?_⟩
      rw [markAt, markAt, hword]
      exact hwrite hb .w64 a _
  read := fun _ hr hwide => hread hr hwide _
  write := fun _ hr width v => hwrite hr width _ v

/-- Only single bytes are read from the devices that a read changes. -/
theorem wide_read_bus {width : Width} (h : width ≠ .w8) (bus : Bus) (p : BitVec 64) :
    (vmBusRead width bus p).1 = bus := by
  cases width with
  | w8 => exact absurd rfl h
  | _ => rfl

theorem Lockstep.load (h : Lockstep R cpu bus bus') {width : Width} (hwide : width ≠ .w8)
    (va : BitVec 64) : SameLoad R cpu bus width va := by
  intro b b' p ht hr
  rw [wide_read_bus hwide, wide_read_bus hwide]
  exact ⟨h.read ht hr hwide, hr⟩

end

section
variable {R : Bus → Bus → Prop} {cpu : Cpu} {bus bus' : Bus} (h : Lockstep R cpu bus bus')
include h

theorem load_paired {width : Width} (extend : BitVec 64 → BitVec 64) {instruction : IType}
    (hload : SameLoad R cpu bus width (instruction.imm + cpuReadReg cpu instruction.rs1)) :
    Paired R (loadOp width extend { cpu := cpu, bus := bus } instruction)
      (loadOp width extend { cpu := cpu, bus := bus' } instruction) := by
  unfold loadOp cpuLoad
  dsimp only
  rcases h.translate (instruction.imm + cpuReadReg cpu instruction.rs1) .load with
    ⟨e, ht, ht'⟩ | ⟨b, b', p, ht, ht', hr⟩
  · rw [ht, ht']
    exact ⟨rfl, h.related⟩
  · obtain ⟨hvalue, hbus⟩ := hload b b' p ht hr
    rw [ht, ht']
    dsimp only
    rw [hvalue]
    exact ⟨rfl, hbus⟩

theorem dispatch_load_paired {instruction : IType}
    (hbyte : instruction.funct3 = 0 ∨ instruction.funct3 = 4 →
      SameLoad R cpu bus .w8 (instruction.imm + cpuReadReg cpu instruction.rs1)) :
    Paired R (dispatchLoad { cpu := cpu, bus := bus } instruction)
      (dispatchLoad { cpu := cpu, bus := bus' } instruction) := by
  unfold dispatchLoad
  split
  case h_1 h3 => exact load_paired h _ (hbyte (Or.inl h3))
  case h_5 h3 => exact load_paired h _ (hbyte (Or.inr h3))
  case h_8 => exact ⟨rfl, h.related⟩
  all_goals
    refine load_paired h _ (h.load ?_ _)
    decide

theorem store_paired (width : Width) (instruction : SType) :
    Paired R (storeOp width { cpu := cpu, bus := bus } instruction)
      (storeOp width { cpu := cpu, bus := bus' } instruction) := by
  unfold storeOp cpuStore
  dsimp only
  rcases h.translate (cpuReadReg cpu instruction.rs1 + instruction.imm) .store with
    ⟨e, ht, ht'⟩ | ⟨b, b', p, ht, ht', hr⟩
  · rw [ht, ht']
    exact ⟨rfl, h.related⟩
  · rw [ht, ht']
    exact ⟨rfl, h.write ht hr _ _⟩

theorem dispatch_store_paired (instruction : SType) :
    Paired R (dispatchStore { cpu := cpu, bus := bus } instruction)
      (dispatchStore { cpu := cpu, bus := bus' } instruction) := by
  unfold dispatchStore
  split
  case h_5 => exact ⟨rfl, h.related⟩
  all_goals exact store_paired h _ instruction

theorem Lockstep.atomic_read {w : Nat} {atomic : AtomicWidth w} {width : Width}
    (hr : ReadsWidth atomic width) {va p : BitVec 64} {acc : AccessType} {b b' : Bus}
    (ht : translateAddress cpu bus va acc = (b, .ok p)) (hb : R b b') :
    atomic.read b' p = atomic.read b p := by
  rw [hr.reads, hr.reads, h.read ht hb hr.wide]

theorem amo_paired {w : Nat} {atomic : AtomicWidth w} {width : Width} (hs : SameWidth atomic width)
    (hr : ReadsWidth atomic width) (instruction : AType) :
    Paired R (amo atomic { cpu := cpu, bus := bus } instruction)
      (amo atomic { cpu := cpu, bus := bus' } instruction) := by
  unfold amo
  dsimp only
  split
  · exact ⟨rfl, h.related⟩
  rcases h.translate (cpuReadReg cpu instruction.rs1) .store with
    ⟨e, ht, ht'⟩ | ⟨b, b', p, ht, ht', hb⟩
  · rw [ht, ht']
    exact ⟨rfl, h.related⟩
  · rw [ht, ht']
    dsimp only
    rw [h.atomic_read hr ht hb]
    split
    · exact ⟨rfl, hb⟩
    · rw [hs.write, hs.write]
      exact ⟨rfl, h.write ht hb _ _⟩

theorem lr_paired {w : Nat} {atomic : AtomicWidth w} {width : Width}
    (hr : ReadsWidth atomic width) (instruction : AType) :
    Paired R (lr atomic { cpu := cpu, bus := bus } instruction)
      (lr atomic { cpu := cpu, bus := bus' } instruction) := by
  unfold lr
  dsimp only
  split
  · exact ⟨rfl, h.related⟩
  split
  · exact ⟨rfl, h.related⟩
  rcases h.translate (cpuReadReg cpu instruction.rs1) .load with
    ⟨e, ht, ht'⟩ | ⟨b, b', p, ht, ht', hb⟩
  · rw [ht, ht']
    exact ⟨rfl, h.related⟩
  · rw [ht, ht']
    dsimp only
    rw [h.atomic_read hr ht hb]
    exact ⟨rfl, hb⟩

theorem sc_paired {w : Nat} {atomic : AtomicWidth w} {width : Width} (hs : SameWidth atomic width)
    (instruction : AType) :
    Paired R (sc atomic { cpu := cpu, bus := bus } instruction)
      (sc atomic { cpu := cpu, bus := bus' } instruction) := by
  unfold sc
  dsimp only
  split
  · exact ⟨rfl, h.related⟩
  rcases h.translate (cpuReadReg cpu instruction.rs1) .store with
    ⟨e, ht, ht'⟩ | ⟨b, b', p, ht, ht', hb⟩
  · rw [ht, ht']
    exact ⟨rfl, h.related⟩
  · rw [ht, ht']
    dsimp only
    split
    · rw [hs.write, hs.write]
      exact ⟨rfl, h.write ht hb _ _⟩
    · exact ⟨rfl, hb⟩

theorem a_extension_paired (instruction : AType) :
    Paired R (dispatchAExtension { cpu := cpu, bus := bus } instruction)
      (dispatchAExtension { cpu := cpu, bus := bus' } instruction) := by
  have hillegal : Paired R (Vm.illegalInstruction { cpu := cpu, bus := bus } instruction.raw)
      (Vm.illegalInstruction { cpu := cpu, bus := bus' } instruction.raw) := ⟨rfl, h.related⟩
  unfold dispatchAExtension
  split
  · split
    · exact amo_paired h atomic_w_width atomic_w_reads instruction
    split
    · exact amo_paired h atomic_d_width atomic_d_reads instruction
    · exact hillegal
  split
  · split
    · exact lr_paired h atomic_w_reads instruction
    split
    · exact lr_paired h atomic_d_reads instruction
    · exact hillegal
  split
  · split
    · exact sc_paired h atomic_w_width instruction
    split
    · exact sc_paired h atomic_d_width instruction
    · exact hillegal
  · exact hillegal

/-- CSRs show the CPU and the clock. -/
theorem csr_read_paired (addr : BitVec 12) :
    csrRead { cpu := cpu, bus := bus' } addr = csrRead { cpu := cpu, bus := bus } addr := by
  by_cases ht : addr = csrTime
  · subst ht
    have hread : ∀ bus : Bus, timeRead { cpu := cpu, bus := bus } = bus.timer.mtime :=
      fun bus => mtime_read64 bus
    rw [@handler_read { cpu := cpu, bus := bus' } csrTime timeRead rfl rfl,
      @handler_read { cpu := cpu, bus := bus } csrTime timeRead rfl rfl,
      hread, hread, h.timer]
  · exact csr_read_congr rfl (fun h => absurd h ht) rfl fun _ _ => rfl

theorem finish_csr_paired (instruction : IType) (addr : BitVec 12) (new old : BitVec 64) :
    Paired R (finishCsrWrite { cpu := cpu, bus := bus } instruction addr new old)
      (finishCsrWrite { cpu := cpu, bus := bus' } instruction addr new old) := by
  unfold finishCsrWrite
  dsimp only
  cases csrWrite cpu addr new with
  | none => exact ⟨rfl, h.related⟩
  | some cpu => exact ⟨rfl, h.related⟩

theorem csr_replace_paired {source : Vm → IType → BitVec 64}
    (hsource : ∀ i, source { cpu := cpu, bus := bus' } i = source { cpu := cpu, bus := bus } i)
    (instruction : IType) :
    Paired R (csrReplace source { cpu := cpu, bus := bus } instruction)
      (csrReplace source { cpu := cpu, bus := bus' } instruction) := by
  unfold csrReplace
  dsimp only
  rw [csr_read_paired h, hsource]
  split
  · split
    · exact ⟨rfl, h.related⟩
    · exact finish_csr_paired h _ _ _ _
  · exact finish_csr_paired h _ _ _ _

theorem csr_modify_paired {combine : BitVec 64 → BitVec 64 → BitVec 64}
    {source : Vm → IType → BitVec 64}
    (hsource : ∀ i, source { cpu := cpu, bus := bus' } i = source { cpu := cpu, bus := bus } i)
    (instruction : IType) :
    Paired R (csrModify combine source { cpu := cpu, bus := bus } instruction)
      (csrModify combine source { cpu := cpu, bus := bus' } instruction) := by
  unfold csrModify
  dsimp only
  rw [csr_read_paired h, hsource]
  split
  · exact ⟨rfl, h.related⟩
  · split
    · exact finish_csr_paired h _ _ _ _
    · exact ⟨rfl, h.related⟩

theorem system_paired (instruction : IType) :
    Paired R (dispatchSystem { cpu := cpu, bus := bus } instruction)
      (dispatchSystem { cpu := cpu, bus := bus' } instruction) := by
  have hrs1 : ∀ i, fromRs1 { cpu := cpu, bus := bus' } i = fromRs1 { cpu := cpu, bus := bus } i :=
    fun _ => rfl
  have hzimm : ∀ i, fromZimm { cpu := cpu, bus := bus' } i =
      fromZimm { cpu := cpu, bus := bus } i := fun _ => rfl
  unfold dispatchSystem
  split
  · dsimp only
    unfold sfenceVma ecall ebreak sret mret wfi
    repeat' split
    all_goals exact ⟨rfl, h.related⟩
  · exact csr_replace_paired h hrs1 instruction
  · exact csr_modify_paired h hrs1 instruction
  · exact csr_modify_paired h hrs1 instruction
  · exact csr_replace_paired h hzimm instruction
  · exact csr_modify_paired h hzimm instruction
  · exact csr_modify_paired h hzimm instruction
  · exact ⟨rfl, h.related⟩

/-- Every instruction does the same on both buses, a load of a byte where that does. -/
theorem dispatch_paired {word : BitVec 32} (hbyte : IsByteLoad word →
      SameLoad R cpu bus .w8 ((decodeI word).imm + cpuReadReg cpu (rs1Of word))) :
    Paired R (dispatchInstruction { cpu := cpu, bus := bus } word)
      (dispatchInstruction { cpu := cpu, bus := bus' } word) := by
  rw [dispatch_word, dispatch_word]
  cases hop : Opcode.ofRaw (opcodeOf word) with
  | none => exact ⟨rfl, h.related⟩
  | some opcode =>
    cases opcode with
    | load =>
      refine dispatch_load_paired h fun h3 => ?_
      rw [decode_i_funct3] at h3
      rw [decode_i_rs1]
      exact hbyte ⟨of_raw_eq hop, h3⟩
    | store => exact dispatch_store_paired h _
    | amo => exact a_extension_paired h _
    | system => exact system_paired h _
    | miscMem =>
      dsimp only
      unfold dispatchMiscMem fence fenceI
      repeat' split
      all_goals exact ⟨rfl, h.related⟩
    | _ => exact ⟨rfl, h.related⟩

end

section
variable {R : Bus → Bus → Prop} {vm vm' : Vm}

theorem Paired.on_cpu (h : Paired R vm vm') (f : Cpu → Cpu) :
    Paired R (vm.onCpu f) (vm'.onCpu f) := ⟨congrArg f h.cpu, h.bus⟩

/-- A step of two machines that are in lockstep before and after the fetch. -/
theorem Paired.step (h : Paired R vm vm')
    (hstart : Lockstep R (beginStep vm.cpu) vm.bus vm'.bus)
    (hready : ∀ {b b' p},
      translateAddress (beginStep vm.cpu) vm.bus vm.cpu.pc .fetch = (b, .ok p) → R b b' →
      Lockstep R (beginStep vm.cpu) b b' ∧
        (IsByteLoad (vmBusRead32 b p) →
          SameLoad R (beginStep vm.cpu) b .w8 ((decodeI (vmBusRead32 b p)).imm +
            cpuReadReg vm.cpu (rs1Of (vmBusRead32 b p))))) :
    Paired R (cpuStep vm) (cpuStep vm') := by
  obtain ⟨cpu, bus⟩ := vm
  obtain ⟨cpu', bus'⟩ := vm'
  obtain ⟨hcpu, hb⟩ := h
  have hcpu' : cpu = cpu' := hcpu.symm
  subst hcpu'
  unfold cpuStep cpuFetch
  dsimp only [on_cpu_cpu, on_cpu_bus]
  rcases hstart.translate (beginStep cpu).pc .fetch with ⟨e, ht, ht'⟩ | ⟨b, b', p, ht, ht', hr⟩
  · rw [ht, ht']
    exact ⟨rfl, hb⟩
  · have hword : vmBusRead32 b' p = vmBusRead32 b p := by
      have hlow := congrArg (BitVec.setWidth 32)
        (hstart.read ht hr (nofun : Width.w32 ≠ .w8))
      simpa [vmBusRead] using hlow
    obtain ⟨hlock, hbyte⟩ := hready ht hr
    rw [ht, ht']
    dsimp only
    rw [hword]
    exact ((((dispatch_paired hlock hbyte).on_cpu _).on_cpu _).on_cpu _).on_cpu _

end

end RiscvVm.Proofs
