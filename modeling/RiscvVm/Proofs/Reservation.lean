import RiscvVm.Proofs.Privilege

namespace RiscvVm.Proofs
open Sv39

/-- The `n` bytes at the physical address `p` are the same in both. -/
def SameBytes (p : BitVec 64) (n : Nat) (ram ram' : Memory) : Prop :=
  ∀ i < n, ram'.mem (p + BitVec.ofNat 64 i - memBase) = ram.mem (p + BitVec.ofNat 64 i - memBase)

theorem SameBytes.refl (p : BitVec 64) (n : Nat) (ram : Memory) : SameBytes p n ram ram :=
  fun _ _ => rfl

theorem SameBytes.trans {p : BitVec 64} {n : Nat} {a b c : Memory} (h : SameBytes p n a b)
    (g : SameBytes p n b c) : SameBytes p n a c :=
  fun i hi => (g i hi).trans (h i hi)

/-- The translation of this access walks the page table and sets a bit of the
leaf entry at `addr` that was clear. -/
structure MarksEntry (cpu : Cpu) (bus : Bus) (va : BitVec 64) (acc : AccessType)
    (addr : BitVec 64) : Prop where
  paged : satpMode cpu = 8 ∧ effectivePriviledge cpu acc ≠ mMode
  mapped : ∃ bus' p, translateAddress cpu bus va acc = (bus', .ok p)
  walk : ∃ level, Walk (vmBusRead64 bus) va 2 (pageAddr (rootOf cpu)) level addr
  clear : mark (accessOf acc) (vmBusRead64 bus addr) ≠ vmBusRead64 bus addr

/-- The Accessed and Dirty bits are in the first byte of an entry. -/
theorem mark_byte (acc : Access) (pte : BitVec 64) {k : Nat} (hk : 0 < k) :
    ByteMap.byte (mark acc pte) k = ByteMap.byte pte k := by
  have hbit : ∀ n < 8, ∀ i, (1#64 <<< n).getLsbD (8 * k + i) = false := by
    intro n hn i
    rw [Bits.getLsbD_one_shift n _ (by omega)]
    exact decide_eq_false (by omega)
  apply BitVec.eq_of_getLsbD_eq
  intro i hi
  unfold mark
  split <;>
    simp only [ByteMap.byte, BitVec.getLsbD_setWidth, BitVec.getLsbD_ushiftRight,
      BitVec.getLsbD_or, hbit 6 (by omega), hbit 7 (by omega), Bool.or_false]

/-- A write to a leaf entry that keeps all but its first byte. -/
theorem leaf_write_bytes {bus : Bus} {addr v : BitVec 64} (ha : addr.toNat % 8 = 0)
    (hl : Leaf (vmBusRead64 bus addr))
    (hv : ∀ k, 0 < k → ByteMap.byte v k = ByteMap.byte (vmBusRead64 bus addr) k)
    {x : BitVec 64} (hx : x ≠ addr) :
    (vmBusWrite64 bus addr v).ram.mem (x - memBase) = bus.ram.mem (x - memBase) := by
  rcases leaf_place ha hl with hram | rfl | rfl
  · have hne : (x - addr).toNat ≠ 0 := by
      intro hz
      have hx' := (ByteMap.sub_toNat_offset addr x (by omega)).mpr hz
      rw [BitVec.add_zero] at hx'
      exact hx hx'
    rw [bus_write64_in_ram bus v hram]
    dsimp only
    rw [ByteMap.write_apply _ _ _ _ (by omega), sub_sub_sub_cancel]
    split
    · rename_i hlt
      rw [hv _ (by omega), bus_read64_in_ram bus hram, ByteMap.byte_read _ _ hlt (by omega)]
      congr 1
      refine ((ByteMap.sub_toNat_offset (addr - memBase) _ (by omega)).mpr ?_).symm
      rw [sub_sub_sub_cancel]
    · rfl
  · rfl
  · rfl

/-- A translation changes none of these bytes unless it marks an entry that
starts in them. -/
theorem translate_spares {cpu : Cpu} {bus bus' : Bus} {va q : BitVec 64} {acc : AccessType}
    (ht : translateAddress cpu bus va acc = (bus', .ok q)) {p : BitVec 64} {n : Nat}
    (hn : n ≤ 8) (hspare : ∀ addr, MarksEntry cpu bus va acc addr → ¬ (addr - p).toNat < n) :
    SameBytes p n bus.ram bus'.ram := by
  rcases translate_cases cpu bus va acc with ⟨_, he⟩ | ⟨h8, hm, _, he⟩ | ⟨_, _, _, he⟩
  · rw [he] at ht
    cases ht
    exact SameBytes.refl p n _
  · obtain ⟨level, addr, hw, _, _, _, hset⟩ := sv39_loop_word (he.symm.trans ht)
    have ha := walk_addr_aligned hw ⟨_, rfl⟩
    have hl := (walk_leaf hw).2
    rw [hset.written]
    by_cases hc : mark (accessOf acc) (vmBusRead64 bus addr) = vmBusRead64 bus addr
    · rw [hc, leaf_write_same ha hl]
      exact SameBytes.refl p n _
    · have hout := hspare addr ⟨⟨h8, hm⟩, ⟨bus', q, ht⟩, ⟨level, hw⟩, hc⟩
      intro i hi
      refine leaf_write_bytes ha hl (fun k hk => mark_byte _ _ hk) ?_
      rintro rfl
      rw [ByteMap.offset_toNat p (by omega)] at hout
      exact hout hi
  · rw [he] at ht
    cases ht

/-- The step fetches this word, of the A extension and of this width, and the
access it makes is translated to `p`. What the walks of the fetch and of the
access leave is `bus`. -/
structure AtomicStep (vm : Vm) (word : BitVec 32) (acc : AccessType) (width : Width)
    (p : BitVec 64) (bus : Bus) : Prop where
  amo : opcodeOf word = Opcode.code .amo
  width : atomicWidth word = some width
  access : ∃ start q va, translateAddress vm.cpu vm.bus vm.cpu.pc .fetch = (start, .ok q) ∧
    vmBusRead32 start q = word ∧ dataAccess (fetched vm start) word = some (acc, va) ∧
    translateAddress vm.cpu start va acc = (bus, .ok p)

/-- The step is an LR that reserves the bytes at `p`; it reads them from `read`. -/
def LrReserves (vm : Vm) (width : Width) (p : BitVec 64) (read : Bus) : Prop :=
  ∃ word, funct5Of word = funct5Lr ∧ AtomicStep vm word .load width p read

/-- The step is an SC that stores to the reserved bytes at `p`; it writes to
`before`. -/
def ScStores (vm : Vm) (width : Width) (p : BitVec 64) (before : Bus) : Prop :=
  ∃ word, funct5Of word = funct5Sc ∧ AtomicStep vm word .store width p before ∧
    vm.cpu.reservation = { valid := true, physAddr := p, size := BitVec.ofNat 8 width.bytes }

/-- What the access of a word of the A extension says about it. -/
theorem atomic_access {vm : Vm} {word : BitVec 32} {acc : AccessType} {width : Width}
    {va : BitVec 64} (hop : opcodeOf word = Opcode.code .amo)
    (hwidth : atomicWidth word = some width) (h : dataAccess vm word = some (acc, va)) :
    atomicAccess word = some acc ∧ va = cpuReadReg vm.cpu (rs1Of word) ∧
      AtomicAligned width (cpuReadReg vm.cpu (rs1Of word)) := by
  unfold dataAccess at h
  rw [of_raw_of_code hop, hwidth] at h
  cases hacc : atomicAccess word with
  | none =>
    rw [hacc] at h
    cases h
  | some acc' =>
    rw [hacc] at h
    dsimp only at h
    split at h
    · cases h
      exact ⟨rfl, rfl, ‹_›⟩
    · cases h

/-- The operation of the A extension a word names, at its width. An SC stores
as a store of that width does. -/
theorem dispatch_atomic (vm : Vm) {word : BitVec 32} {width : Width}
    (hop : opcodeOf word = Opcode.code .amo) (hwidth : atomicWidth word = some width) :
    ∃ (w : Nat) (atomic : AtomicWidth w), SameWidth atomic width ∧
      (∀ bus p value, atomic.write bus p (atomic.truncate value) = vmBusWrite width bus p value) ∧
      (funct5Of word = funct5Lr → dispatchInstruction vm word = lr atomic vm (decodeA word)) ∧
      (funct5Of word = funct5Sc → dispatchInstruction vm word = sc atomic vm (decodeA word)) ∧
      (isAmo (funct5Of word) = true →
        dispatchInstruction vm word = amo atomic vm (decodeA word)) := by
  have hform : ∀ {w : Nat} (atomic : AtomicWidth w),
      (∀ run : {w : Nat} → AtomicWidth w → Vm, (if funct3Of word = 0x2 then run atomicW
        else if funct3Of word = 0x3 then run atomicD else vm.illegalInstruction word) =
          run atomic) →
      (funct5Of word = funct5Lr → dispatchInstruction vm word = lr atomic vm (decodeA word)) ∧
      (funct5Of word = funct5Sc → dispatchInstruction vm word = sc atomic vm (decodeA word)) ∧
      (isAmo (funct5Of word) = true →
        dispatchInstruction vm word = amo atomic vm (decodeA word)) := by
    intro w atomic hrun
    rw [dispatch_amo_word (of_raw_of_code hop)]
    unfold dispatchAExtension
    rw [decode_a_funct5, decode_a_funct3]
    refine ⟨fun hf => ?_, fun hf => ?_, fun hf => ?_⟩ <;> rw [hf]
    · exact hrun fun atomic => lr atomic vm (decodeA word)
    · exact hrun fun atomic => sc atomic vm (decodeA word)
    · exact hrun fun atomic => amo atomic vm (decodeA word)
  unfold atomicWidth at hwidth
  by_cases h2 : funct3Of word = 0x2
  · rw [if_pos h2] at hwidth
    cases hwidth
    exact ⟨32, atomicW, atomic_w_width, fun _ _ _ => rfl, hform atomicW fun _ => if_pos h2⟩
  by_cases h3 : funct3Of word = 0x3
  · rw [if_neg h2, if_pos h3] at hwidth
    cases hwidth
    refine ⟨64, atomicD, atomic_d_width, fun _ _ _ => rfl, hform atomicD fun _ => ?_⟩
    rw [if_neg h2, if_pos h3]
  · rw [if_neg h2, if_neg h3] at hwidth
    cases hwidth

/-- The end of a step keeps the reservation and the bus. -/
theorem finish_retire (vm : Vm) :
    (finish (retire vm)).cpu.reservation = vm.cpu.reservation ∧
      (finish (retire vm)).bus = vm.bus := by
  refine ⟨?_, rfl⟩
  exact (check_interrupts_frame (retire vm).cpu).reservation.trans (retire_reservation vm)

section
variable (vm : Vm) {w : Nat} {atomic : AtomicWidth w} {width : Width} (instruction : AType)
  {bus : Bus} {p : BitVec 64}

/-- An LR that is not refused reads its bytes and reserves them. -/
theorem lr_eq (hs : SameWidth atomic width) (hrs2 : instruction.rs2 = 0)
    (hal : AtomicAligned width (cpuReadReg vm.cpu instruction.rs1))
    (ht : translateAddress vm.cpu vm.bus (cpuReadReg vm.cpu instruction.rs1) .load = (bus, .ok p)) :
    lr atomic vm instruction =
      { cpu := { cpuWriteReg vm.cpu instruction.rd (atomic.extend (atomic.read bus p)) with
          reservation := { valid := true, physAddr := p, size := BitVec.ofNat 8 width.bytes } }
        bus := bus } := by
  unfold lr AtomicAligned at *
  simp only [hs.mask, hs.size, hrs2, hal, ht, ne_eq, not_true_eq_false, if_false]

/-- An SC that is not refused stores if it finds its reservation; the
reservation is over in both cases. -/
theorem sc_eq (hs : SameWidth atomic width)
    (hstore : ∀ bus p value, atomic.write bus p (atomic.truncate value) =
      vmBusWrite width bus p value)
    (hal : AtomicAligned width (cpuReadReg vm.cpu instruction.rs1))
    (ht : translateAddress vm.cpu vm.bus (cpuReadReg vm.cpu instruction.rs1) .store = (bus, .ok p)) :
    sc atomic vm instruction =
      if vm.cpu.reservation =
          { valid := true, physAddr := p, size := BitVec.ofNat 8 width.bytes } then
        { cpu := { cpuWriteReg vm.cpu instruction.rd 0 with
            reservation := { vm.cpu.reservation with valid := false } }
          bus := vmBusWrite width bus p (cpuReadReg vm.cpu instruction.rs2) }
      else
        { cpu := { cpuWriteReg vm.cpu instruction.rd 1 with
            reservation := { vm.cpu.reservation with valid := false } }
          bus := bus } := by
  unfold sc AtomicAligned at *
  simp only [hs.mask, hs.size, hstore, hal, ht, ne_eq, not_true_eq_false, if_false,
    reservation_matches]
  split <;> simp only [write_reg_reservation]

end

theorem lr_step {vm : Vm} {width : Width} {p : BitVec 64} {read : Bus}
    (h : LrReserves vm width p read) :
    (cpuStep vm).cpu.reservation =
        { valid := true, physAddr := p, size := BitVec.ofNat 8 width.bytes } ∧
      (cpuStep vm).bus = read := by
  obtain ⟨word, hf, hop, hwidth, start, q, va, ht, hword, hacc, hta⟩ := h
  obtain ⟨hat, rfl, hal⟩ := atomic_access hop hwidth hacc
  obtain ⟨w, atomic, hs, _, hlr, _⟩ := dispatch_atomic (fetched vm start) hop hwidth
  obtain ⟨hp, hstep⟩ := step_of_fetch ht
  have hrs2 : rs2Of word = 0 := by
    unfold atomicAccess at hat
    rw [hf] at hat
    by_cases hz : rs2Of word = 0
    · exact hz
    · rw [if_neg hz] at hat
      cases hat
  rw [← translate_begin] at hta
  have hdone := lr_eq (fetched vm start) (decodeA word) hs hrs2 hal hta
  rw [hstep, hp, hword, (finish_retire _).1, (finish_retire _).2, hlr hf, hdone]
  exact ⟨rfl, rfl⟩

/-- The dispatched state of an SC whose address is translated. -/
theorem sc_processed {vm : Vm} {word : BitVec 32} {width : Width} {p : BitVec 64} {before : Bus}
    (hf : funct5Of word = funct5Sc) (h : AtomicStep vm word .store width p before) :
    processed vm = retire
      (if vm.cpu.reservation =
          { valid := true, physAddr := p, size := BitVec.ofNat 8 width.bytes } then
        { cpu := { cpuWriteReg (beginStep vm.cpu) (rdOf word) 0 with
            reservation := { vm.cpu.reservation with valid := false } }
          bus := vmBusWrite width before p (cpuReadReg vm.cpu (rs2Of word)) }
      else
        { cpu := { cpuWriteReg (beginStep vm.cpu) (rdOf word) 1 with
            reservation := { vm.cpu.reservation with valid := false } }
          bus := before }) ∧ cpuStep vm = finish (processed vm) := by
  obtain ⟨hop, hwidth, start, q, va, ht, hword, hacc, hta⟩ := h
  obtain ⟨_, rfl, hal⟩ := atomic_access hop hwidth hacc
  obtain ⟨w, atomic, hs, hstore, _, hsc, _⟩ := dispatch_atomic (fetched vm start) hop hwidth
  obtain ⟨hp, hstep⟩ := step_of_fetch ht
  rw [← translate_begin] at hta
  have hdone := sc_eq (fetched vm start) (decodeA word) hs hstore hal hta
  refine ⟨?_, hstep⟩
  rw [hp, hword, hsc hf, hdone]
  rfl

/-- The store of an SC, made to the bus that its walk has left. -/
theorem sc_step {vm : Vm} {width : Width} {p : BitVec 64} {before : Bus}
    (h : ScStores vm width p before) :
    ∃ value, (cpuStep vm).bus = vmBusWrite width before p value := by
  obtain ⟨word, hf, hatomic, hres⟩ := h
  obtain ⟨hp, hstep⟩ := sc_processed hf hatomic
  rw [hstep, hp, if_pos hres, (finish_retire _).2]
  exact ⟨_, rfl⟩

/-- A store that does not hit a reservation in RAM leaves its bytes alone. -/
theorem write_spares {cpu : Cpu} {p : BitVec 64} {n : Nat} (hn : n ≤ 8) (hram : InRam p n)
    (hres : cpu.reservation = { valid := true, physAddr := p, size := BitVec.ofNat 8 n })
    {q : BitVec 64} {width : Width} (hmiss : ¬ Hits cpu q (BitVec.ofNat 8 width.bytes))
    (bus : Bus) (value : BitVec 64) :
    SameBytes p n bus.ram (vmBusWrite width bus q value).ram := by
  by_cases hq : InRam q width.bytes
  · have h8 := Width.bytes_le width
    have hb : memBase.toNat = 2147483648 := rfl
    have hsz : memSize.toNat = 67108864 := rfl
    rw [hits_iff (by rw [hres]) h8 (Or.inl (hq.mono (Nat.zero_le _)))] at hmiss
    simp only [Overlaps, hres, BitVec.toNat_ofNat] at hmiss
    unfold InRam at hram hq
    intro i hi
    rw [bus_write_in_ram width bus value hq]
    refine ByteMap.write_outside bus.ram.mem _ value (by omega) ?_
    rw [sub_sub_sub_cancel, BitVec.toNat_sub, BitVec.toNat_add, BitVec.toNat_ofNat]
    omega
  · rw [bus_write_outside width bus value hq]
    exact SameBytes.refl p n _

theorem bus_read_ram (width : Width) (bus : Bus) (p : BitVec 64) :
    (vmBusRead width bus p).1.ram = bus.ram := by
  cases width with
  | w8 =>
    unfold vmBusRead vmBusRead8
    dsimp only
    split
    · rfl
    · split <;> rfl
  | w16 => rfl
  | w32 => rfl
  | w64 => rfl

/-- A reservation that is still valid is that of these bytes, and the bytes
are those in `ram`. -/
def Held (p : BitVec 64) (n : Nat) (ram : Memory) (vm : Vm) : Prop :=
  vm.cpu.reservation.valid = true →
    vm.cpu.reservation = { valid := true, physAddr := p, size := BitVec.ofNat 8 n } ∧
      SameBytes p n ram vm.bus.ram

section
variable {p : BitVec 64} {n : Nat} {ram : Memory} {vm vm' : Vm}

theorem Held.keep (h : Held p n ram vm) (hres : vm'.cpu.reservation = vm.cpu.reservation)
    (hbytes : vm.cpu.reservation = { valid := true, physAddr := p, size := BitVec.ofNat 8 n } →
      SameBytes p n vm.bus.ram vm'.bus.ram) : Held p n ram vm' := by
  intro hv
  rw [hres] at hv ⊢
  obtain ⟨he, hs⟩ := h hv
  exact ⟨he, hs.trans (hbytes he)⟩

theorem Held.same (h : Held p n ram vm) (hres : vm'.cpu.reservation = vm.cpu.reservation)
    (hram : vm'.bus.ram = vm.bus.ram) : Held p n ram vm' := by
  refine h.keep hres fun _ => ?_
  rw [hram]
  exact SameBytes.refl p n _

theorem held_invalid (h : vm.cpu.reservation.valid = false) : Held p n ram vm := by
  intro hv
  rw [h] at hv
  cases hv

/-- A store that goes through `cpu_invalidate_reservation`. -/
theorem Held.store (h : Held p n ram vm) (hn : n ≤ 8) (hram : InRam p n) {q value : BitVec 64}
    {width : Width} {bus : Bus}
    (hwalk : vm.cpu.reservation = { valid := true, physAddr := p, size := BitVec.ofNat 8 n } →
      SameBytes p n vm.bus.ram bus.ram)
    (hres : vm'.cpu.reservation =
      (cpuInvalidateReservation vm.cpu q (BitVec.ofNat 8 width.bytes)).reservation)
    (hbus : vm'.bus = vmBusWrite width bus q value) : Held p n ram vm' := by
  rw [invalidate_eq] at hres
  dsimp only at hres
  by_cases hhit : Hits vm.cpu q (BitVec.ofNat 8 width.bytes)
  · apply held_invalid
    rw [hres, decide_eq_true hhit]
    exact Bool.and_false _
  · rw [decide_eq_false hhit] at hres
    refine h.keep ?_ fun he => ?_
    · rw [hres, Bool.not_false, Bool.and_true]
    · rw [hbus]
      exact (hwalk he).trans (write_spares hn hram he hhit bus value)

/-- Every instruction but an LR, once its walk has spared the bytes. -/
theorem executes_held {word : BitVec 32} (h : Held p n ram vm) (hn : n ≤ 8) (hram : InRam p n)
    (hwalk : ∀ acc va bus q, dataAccess vm word = some (acc, va) →
      translateAddress vm.cpu vm.bus va acc = (bus, .ok q) →
      vm.cpu.reservation = { valid := true, physAddr := p, size := BitVec.ofNat 8 n } →
      SameBytes p n vm.bus.ram bus.ram)
    (hlr : ∀ width va q bus, IsLr word → atomicWidth word = some width →
      dataAccess vm word = some (.load, va) →
      translateAddress vm.cpu vm.bus va .load ≠ (bus, .ok q))
    (hexec : Executes vm word vm') : Held p n ram vm' := by
  cases hexec with
  | nop => exact h
  | write value => exact h.same (write_reg_reservation _ _ _) rfl
  | branch target => exact h.same rfl rfl
  | link target value => exact h.same (write_reg_reservation _ _ _) rfl
  | trap hfault => exact h.same (raise_exception_frame _ _ _).reservation rfl
  | load width va q bus extend hacc ht =>
    refine h.keep (write_reg_reservation _ _ _) fun he => ?_
    dsimp only
    rw [bus_read_ram]
    exact hwalk _ _ _ _ hacc ht he
  | store width va q value bus hacc ht => exact h.store hn hram (hwalk _ _ _ _ hacc ht) rfl rfl
  | amo width va q new old bus hwidth hacc ht =>
    exact h.store hn hram (hwalk _ _ _ _ hacc ht) (write_reg_reservation _ _ _) rfl
  | lr width va q value bus hword hwidth hacc ht =>
    exact absurd ht (hlr width va q bus hword hwidth hacc)
  | sc => exact held_invalid rfl
  | scFailed => exact held_invalid rfl
  | csr addr new old cpu hreq hw =>
    refine h.same ?_ rfl
    dsimp only
    rw [write_reg_reservation, writes_eq (csr_write_cases hw).2]
  | sret hword hpriv =>
    rw [sret_eq word hpriv]
    exact h.same rfl rfl
  | mret hword hpriv =>
    rw [mret_eq word hpriv]
    exact h.same rfl rfl

end

/-- A byte of the reservation the CPU holds. -/
def Reserved (cpu : Cpu) (addr : BitVec 64) : Prop :=
  cpu.reservation.valid = true ∧
    (addr - cpu.reservation.physAddr).toNat < cpu.reservation.size.toNat

/-- No walk of the step, neither that of its fetch nor that of its data access,
sets the Accessed or the Dirty bit of an entry whose first byte is reserved. -/
structure WalksSpare (vm : Vm) : Prop where
  fetch : ∀ addr, MarksEntry vm.cpu vm.bus vm.cpu.pc .fetch addr → ¬ Reserved vm.cpu addr
  data : ∀ start q acc va addr,
    translateAddress vm.cpu vm.bus vm.cpu.pc .fetch = (start, .ok q) →
    dataAccess (fetched vm start) (vmBusRead32 start q) = some (acc, va) →
    MarksEntry vm.cpu start va acc addr → ¬ Reserved vm.cpu addr

theorem reserved_of_eq {cpu : Cpu} {p addr : BitVec 64} {n : Nat} (hn : n ≤ 8)
    (hres : cpu.reservation = { valid := true, physAddr := p, size := BitVec.ofNat 8 n })
    (h : (addr - p).toNat < n) : Reserved cpu addr := by
  unfold Reserved
  rw [hres]
  refine ⟨rfl, ?_⟩
  dsimp only
  rw [BitVec.toNat_ofNat]
  omega

theorem fetch_spares {vm : Vm} (h : WalksSpare vm) {p q : BitVec 64} {n : Nat} {start : Bus}
    (hn : n ≤ 8)
    (hres : vm.cpu.reservation = { valid := true, physAddr := p, size := BitVec.ofNat 8 n })
    (ht : translateAddress vm.cpu vm.bus vm.cpu.pc .fetch = (start, .ok q)) :
    SameBytes p n vm.bus.ram start.ram :=
  translate_spares ht hn fun addr hmark hlt => h.fetch addr hmark (reserved_of_eq hn hres hlt)

theorem data_spares {vm : Vm} (h : WalksSpare vm) {p q va r : BitVec 64} {n : Nat}
    {start bus : Bus} {acc : AccessType} (hn : n ≤ 8)
    (hres : vm.cpu.reservation = { valid := true, physAddr := p, size := BitVec.ofNat 8 n })
    (ht : translateAddress vm.cpu vm.bus vm.cpu.pc .fetch = (start, .ok q))
    (hacc : dataAccess (fetched vm start) (vmBusRead32 start q) = some (acc, va))
    (hta : translateAddress vm.cpu start va acc = (bus, .ok r)) :
    SameBytes p n start.ram bus.ram :=
  translate_spares hta hn fun addr hmark hlt =>
    h.data start q acc va addr ht hacc hmark (reserved_of_eq hn hres hlt)

/-- A step that is no LR and whose walks spare the reservation. -/
theorem step_held {p : BitVec 64} {n : Nat} {ram : Memory} {vm : Vm} (h : Held p n ram vm)
    (hn : n ≤ 8) (hram : InRam p n) (hspare : WalksSpare vm)
    (hlr : ∀ width q read, ¬ LrReserves vm width q read) : Held p n ram (cpuStep vm) := by
  rcases step_cases vm with ⟨_, hp, hs⟩ | ⟨start, q, done, ht, hexec, hp, hs⟩
  · rw [hs, hp]
    exact h.same (raise_exception_frame _ _ _).reservation rfl
  · have hfetched : Held p n ram (fetched vm start) :=
      h.keep rfl fun he => fetch_spares hspare hn he ht
    have hdone : Held p n ram done := by
      refine executes_held hfetched hn hram ?_ ?_ hexec
      · intro acc va bus r hacc hta he
        rw [fetched_cpu, translate_begin] at hta
        exact data_spares hspare hn he ht hacc hta
      · intro width va r bus hword hwidth hacc hta
        rw [fetched_cpu, translate_begin] at hta
        exact hlr width r bus ⟨_, hword.2, hword.1, hwidth, start, q, va, ht, rfl, hacc, hta⟩
    rw [hs, hp]
    exact hdone.same (finish_retire done).1 (congrArg Bus.ram (finish_retire done).2)

/-- A run after an LR, up to the SC it belongs to: no other LR completes, and
the walks of every step spare the reservation. The loop of `main` may tick the
timer and poll its input at any time. -/
inductive Between : Vm → Vm → Prop
  | refl (vm : Vm) : Between vm vm
  | step (a vm : Vm) (run : Between a vm) (hlr : ∀ width q read, ¬ LrReserves vm width q read)
      (hspare : WalksSpare vm) : Between a (cpuStep vm)
  | tick (a vm : Vm) (host : HostTurn) (run : Between a vm) : Between a (hostInput (vmTick vm) host)

theorem tick_reservation (vm : Vm) (host : HostTurn) :
    (hostInput (vmTick vm) host).cpu.reservation = vm.cpu.reservation := by
  have hres : (vmTick vm).cpu.reservation = vm.cpu.reservation := by
    unfold vmTick cpuSetInterruptPending
    dsimp only
    split <;> split <;> rfl
  cases host with
  | quiet => exact hres
  | poll input => exact hres

theorem tick_held {p : BitVec 64} {n : Nat} {ram : Memory} {vm : Vm} (h : Held p n ram vm)
    (host : HostTurn) : Held p n ram (hostInput (vmTick vm) host) := by
  refine h.same (tick_reservation vm host) ?_
  cases host <;> rfl

theorem between_held {p : BitVec 64} {n : Nat} {ram : Memory} {a vm : Vm} (run : Between a vm)
    (hn : n ≤ 8) (hram : InRam p n) (h : Held p n ram a) : Held p n ram vm := by
  induction run with
  | refl => exact h
  | step vm run hlr hspare ih => exact step_held ih hn hram hspare hlr
  | tick vm host run ih => exact tick_held ih host

/-- An SC that stores with the reservation of an LR stores over the bytes the
LR has read, in every run whose walks mark no entry that is reserved. The
store is made to `before`. -/
theorem sc_finds_lr_bytes {lr sc : Vm} {width width' : Width} {p p' : BitVec 64}
    {read before : Bus} (hlr : LrReserves lr width p read) (hram : InRam p width.bytes)
    (run : Between (cpuStep lr) sc) (hsc : ScStores sc width' p' before)
    (hspare : WalksSpare sc) :
    width' = width ∧ p' = p ∧
      (∃ value, (cpuStep sc).bus = vmBusWrite width before p value) ∧
      SameBytes p width.bytes read.ram before.ram := by
  have hn := Width.bytes_le width
  have hstored := sc_step hsc
  obtain ⟨hres, hbus⟩ := lr_step hlr
  have hstart : Held p width.bytes read.ram (cpuStep lr) := by
    intro _
    rw [hbus]
    exact ⟨hres, SameBytes.refl p _ _⟩
  have hheld := between_held run hn hram hstart
  obtain ⟨word, _, ⟨_, hwidth, start, q, va, ht, rfl, hacc, hta⟩, hfound⟩ := hsc
  obtain ⟨he, hsame⟩ := hheld (by rw [hfound])
  rw [hfound] at he
  injection he with _ hp hsize
  have hw : width' = width := by
    revert hsize
    cases width <;> cases width' <;> decide
  subst hw hp
  exact ⟨rfl, rfl, hstored, (hsame.trans (fetch_spares hspare hn hfound ht)).trans
    (data_spares hspare hn hfound ht hacc hta)⟩

/-- Where nothing is translated, no walk marks anything. -/
theorem walks_spare_machine {vm : Vm} (h : ∀ acc, effectivePriviledge vm.cpu acc = mMode) :
    WalksSpare vm :=
  ⟨fun _ hmark => absurd (h _) hmark.paged.2, fun _ _ _ _ _ _ _ hmark => absurd (h _) hmark.paged.2⟩

/-- `lr.d x2, (x1); sd x0, 8(x1); sc.d x3, x2, (x1)`, in M. -/
def lrScProgram : Vm :=
  { cpu := { supervisor with
      priviledge := mMode
      regs := fun r => if r = 1 then 0x80001010 else 0 }
    bus := busOf (ramOf [(0, 0x0000B4231000B12F), (8, 0x1820B1AF)]) }

theorem sc_finds_lr_bytes_beside_store :
    SameBytes 0x80001010 8 lrScProgram.bus.ram (cpuStep (cpuStep lrScProgram)).bus.ram := by
  have hfirst : ∀ acc, effectivePriviledge lrScProgram.cpu acc = mMode := by
    intro acc
    cases acc <;> decide
  have hsecond : ∀ acc, effectivePriviledge (cpuStep lrScProgram).cpu acc = mMode := by
    intro acc
    cases acc <;> decide
  have hthird : ∀ acc, effectivePriviledge (cpuStep (cpuStep lrScProgram)).cpu acc = mMode := by
    intro acc
    cases acc <;> decide
  have hlr : LrReserves lrScProgram .w64 0x80001010 lrScProgram.bus :=
    ⟨0x1000B12F, by decide, by decide, by decide, _, _, 0x80001010,
      translate_machine (hfirst _) _ _, by decide, by decide,
      translate_machine (hfirst _) _ _⟩
  have hsc : ScStores (cpuStep (cpuStep lrScProgram)) .w64 0x80001010
      (cpuStep (cpuStep lrScProgram)).bus :=
    ⟨0x1820B1AF, by decide, ⟨by decide, by decide, _, _, 0x80001010,
      translate_machine (hthird _) _ _, by decide, by decide,
      translate_machine (hthird _) _ _⟩, by decide⟩
  have hstore : ∀ width q read, ¬ LrReserves (cpuStep lrScProgram) width q read := by
    rintro width q read ⟨word, _, hop, _, start, pc, va, ht, rfl, _, _⟩
    rw [translate_machine (hsecond _)] at ht
    cases ht
    exact absurd hop (by decide)
  exact (sc_finds_lr_bytes hlr (by decide)
    (.step _ _ (.refl _) hstore (walks_spare_machine hsecond)) hsc (walks_spare_machine hthird)).2.2.2

/-- A program that points `satp` at a table whose third entry, a gigapage, is
accessed but not dirty, loads and stores as S through MPRV, and then runs
`lr.d x2, (x1); sc.d x3, x2, (x1)` on that entry. -/
def markedProgram : Memory :=
  ramOf [(0, 0x0202B30300000297), (8, 0x0302B0830282B383), (16, 0x3003907318031073),
    (24, 0x1820B1AF1000B12F), (32, 0x8000000000080001), (40, 0x20800), (48, 0x80001010),
    (0x1010, 0x2000004F)]

/-- The atomic access of a step, from what its two translations evaluate to. -/
theorem atomic_step_of {vm : Vm} {word : BitVec 32} {acc : AccessType} {width : Width}
    {p q va : BitVec 64} {start : Bus}
    (hstart : start = (translateAddress vm.cpu vm.bus vm.cpu.pc .fetch).1)
    (hop : opcodeOf word = Opcode.code .amo) (hwidth : atomicWidth word = some width)
    (ht : (translateAddress vm.cpu vm.bus vm.cpu.pc .fetch).2.toOption = some q)
    (hword : vmBusRead32 start q = word)
    (hacc : dataAccess (fetched vm start) word = some (acc, va))
    (hta : (translateAddress vm.cpu start va acc).2.toOption = some p) :
    AtomicStep vm word acc width p (translateAddress vm.cpu start va acc).1 :=
  ⟨hop, hwidth, start, q, va, Prod.ext hstart.symm (translated_of_to_option ht), hword, hacc,
    Prod.ext rfl (translated_of_to_option hta)⟩

/-- The SC stores although its own walk has set the Dirty bit of the entry the
LR read. -/
theorem sc_over_marked_entry :
    ∃ vm read before, Reachable vm ∧ LrReserves vm .w64 0x80001010 read ∧
      InRam 0x80001010 Width.w64.bytes ∧
      ScStores (mainLoop vm .quiet) .w64 0x80001010 before ∧
      ¬ SameBytes 0x80001010 Width.w64.bytes read.ram before.ram := by
  have hlr := @atomic_step_of (quietly 6 (vmInit markedProgram)) 0x1000B12F .load .w64 0x80001010
    0x80000018 0x80001010 _ rfl (by decide) (by decide) (by decide +kernel) (by decide +kernel)
    (by decide +kernel) (by decide +kernel)
  have hsc := @atomic_step_of (mainLoop (quietly 6 (vmInit markedProgram)) .quiet) 0x1820B1AF .store
    .w64 0x80001010 0x8000001C 0x80001010 _ rfl (by decide) (by decide) (by decide +kernel)
    (by decide +kernel) (by decide +kernel) (by decide +kernel)
  refine ⟨_, _, _, quietly_reachable 6 (.init markedProgram), ⟨_, by decide, hlr⟩, by decide,
    ⟨_, by decide, hsc, by decide +kernel⟩, fun h => ?_⟩
  exact absurd (h 0 (by decide)) (by decide +kernel)

end RiscvVm.Proofs
