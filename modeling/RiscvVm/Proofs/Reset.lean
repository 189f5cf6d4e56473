import RiscvVm.Proofs.Atomics
import RiscvVm.Proofs.Storage

namespace RiscvVm.Proofs

/-- What `csr_reset` assigns. -/
def resetWrites : List (BitVec 12 × BitVec 64) :=
  [(csrMisa, misaReset), (csrMstatus, 3#64 <<< 11), (csrMtvec, ramBase), (csrMedeleg, 0),
    (csrMideleg, 0), (csrMip, 0), (csrMie, 0), (csrMscratch, 0), (csrMepc, 0), (csrMcause, 0),
    (csrMtval, 0), (csrMhartid, 0), (csrMvendorid, 0), (csrMarchid, 0), (csrMimpid, 0),
    (csrMcounteren, 0), (csrMcycle, 0), (csrMinstret, 0), (csrStvec, 0), (csrSscratch, 0),
    (csrSepc, 0), (csrScause, 0), (csrStval, 0), (csrSatp, 0), (csrScounteren, 0)]

def assign (cpu : Cpu) (writes : List (BitVec 12 × BitVec 64)) : Cpu :=
  writes.foldl (fun cpu write => cpu.setCsr write.1 write.2) cpu

theorem csr_reset_eq (cpu : Cpu) : csrReset cpu = assign cpu resetWrites := rfl

/-- Assignments bring two CPUs together where they assign something. -/
theorem assign_csrs (writes : List (BitVec 12 × BitVec 64)) {cpu cpu' : Cpu} {a : BitVec 12}
    (h : cpu.csrs a = cpu'.csrs a ∨ a ∈ writes.map Prod.fst) :
    (assign cpu writes).csrs a = (assign cpu' writes).csrs a := by
  induction writes generalizing cpu cpu' with
  | nil => simpa [assign] using h
  | cons write writes ih =>
    apply ih
    by_cases ha : a = write.1
    · left
      simp [set_csr_csrs, ha]
    · simpa [set_csr_csrs, ha] using h

/-- Every slot that anything may change is among those assigned. -/
theorem reset_complete (a : BitVec 12) : slotMask a = 0 ∨ a ∈ resetWrites.map Prod.fst := by
  cases himp : (csrTable a).implemented with
  | false => exact Or.inl (unimplemented_slot himp).1
  | true =>
    have hall : (csrLoad.map Prod.fst).all
        (fun a => slotMask a == 0 || (resetWrites.map Prod.fst).contains a) = true := by
      decide
    have ha := List.all_eq_true.mp hall a (List.mem_map_of_mem (table_mem himp))
    simpa only [Bool.or_eq_true, beq_iff_eq, List.contains_iff_mem] using ha

theorem reset_csrs {cpu cpu' : Cpu} (h : Stored cpu) (h' : Stored cpu') (addr : BitVec 64) :
    (cpuReset cpu addr).csrs = (cpuReset cpu' addr).csrs := by
  funext a
  unfold cpuReset
  rw [csr_reset_eq, csr_reset_eq]
  refine assign_csrs resetWrites ?_
  rcases reset_complete a with hz | hmem
  · exact Or.inl ((h.fixed hz).trans (h'.fixed hz).symm)
  · exact Or.inr hmem

theorem reset_reservation (cpu : Cpu) (addr : BitVec 64) :
    (cpuReset cpu addr).reservation = cpu.reservation := rfl

/-- Reset leaves nothing of two reachable states to tell them apart except
their reservations. -/
theorem reset_eq_iff {a b : Vm} (ha : Reachable a) (hb : Reachable b) (addr : BitVec 64) :
    cpuReset a.cpu addr = cpuReset b.cpu addr ↔ a.cpu.reservation = b.cpu.reservation := by
  constructor
  · intro h
    have hres : (cpuReset a.cpu addr).reservation = (cpuReset b.cpu addr).reservation := by rw [h]
    rwa [reset_reservation, reset_reservation] at hres
  · intro h
    have hcsrs := reset_csrs (reachable_stored ha) (reachable_stored hb) addr
    have hpc : (cpuReset a.cpu addr).pcWritten = (cpuReset b.cpu addr).pcWritten :=
      (reachable_settled ha).pcWritten.trans (reachable_settled hb).pcWritten.symm
    have hparts : ∀ cpu : Cpu, cpuReset cpu addr =
        { regs := fun _ => 0, csrs := (cpuReset cpu addr).csrs, pc := addr, priviledge := mMode,
          reservation := cpu.reservation, trapTaken := false,
          pcWritten := (cpuReset cpu addr).pcWritten } := fun _ => rfl
    rw [hparts a.cpu, hparts b.cpu, hcsrs, hpc, h]

/-- The machine `n` steps after a reset, on this bus. -/
def afterReset (cpu : Cpu) (addr : BitVec 64) (bus : Bus) (n : Nat) : Vm :=
  Nat.repeat cpuStep n { cpu := cpuReset cpu addr, bus := bus }

/-- No SC after a reset stores unless an LR after the reset has reserved its
bytes. -/
def ScNeedsLr (cpu : Cpu) : Prop :=
  ∀ addr bus k width p before, ScStores (afterReset cpu addr bus k) width p before →
    ∃ j < k, ∃ read, LrReserves (afterReset cpu addr bus j) width p read

/-- Nothing that happened before a reset of the one or of the other is to be
seen after it. -/
structure SameReset (a b : Cpu) : Prop where
  state : ∀ addr, cpuReset a addr = cpuReset b addr
  runs : ∀ addr bus n, afterReset a addr bus n = afterReset b addr bus n
  sc : ScNeedsLr a ∧ ScNeedsLr b

/-- A step leaves a valid reservation only if it was there or if the step is
its LR. -/
theorem step_valid {vm : Vm} {p : BitVec 64} {width : Width}
    (h : (cpuStep vm).cpu.reservation = reservationOf p width) :
    vm.cpu.reservation = reservationOf p width ∨ ∃ read, LrReserves vm width p read := by
  rcases step_reservation vm with hsame | ⟨other, q, read, hlr⟩ | hsc | ⟨other, q, hst⟩
  · exact Or.inl (hsame.symm.trans h)
  · obtain ⟨rfl, rfl⟩ := reservation_of_inj ((lr_step hlr).1.symm.trans h)
    exact Or.inr ⟨read, hlr⟩
  · have hvalid := sc_reservation hsc
    rw [h] at hvalid
    cases hvalid
  · left
    rw [stores_reservation hst, invalidate_eq] at h
    injection h with hvalid haddr hsize
    rw [Bool.and_eq_true] at hvalid
    exact (reservation_matches _ _ _).mp ⟨haddr, hvalid.1, hsize⟩

/-- A reservation that is found during a run without one at its start comes
from an LR of the run. -/
theorem reserved_in_run {cpu : Cpu} (hcpu : cpu.reservation.valid = false) (addr : BitVec 64)
    (bus : Bus) {p : BitVec 64} {width : Width} {k : Nat}
    (h : (afterReset cpu addr bus k).cpu.reservation = reservationOf p width) :
    ∃ j < k, ∃ read, LrReserves (afterReset cpu addr bus j) width p read := by
  induction k with
  | zero =>
    have hvalid : cpu.reservation.valid = true := congrArg Reservation.valid h
    rw [hcpu] at hvalid
    cases hvalid
  | succ k ih =>
    rcases step_valid h with hbefore | hlr
    · obtain ⟨j, hj, hread⟩ := ih hbefore
      exact ⟨j, by omega, hread⟩
    · exact ⟨k, by omega, hlr⟩

theorem sc_needs_lr {cpu : Cpu} (hcpu : cpu.reservation.valid = false) : ScNeedsLr cpu := by
  intro addr bus k width p before hsc
  obtain ⟨_, _, _, hres⟩ := hsc
  exact reserved_in_run hcpu addr bus hres

/-- A reservation, while it is valid, is that of an aligned word. -/
def Shaped (r : Reservation) : Prop :=
  r.valid = true → ∃ width p, (width = .w32 ∨ width = .w64) ∧ AtomicAligned width p ∧
    r = reservationOf p width

theorem step_shaped {vm : Vm} (h : Shaped vm.cpu.reservation) :
    Shaped (cpuStep vm).cpu.reservation := by
  rcases step_reservation vm with hsame | ⟨width, p, read, hlr⟩ | hsc | ⟨other, q, hst⟩
  · rw [hsame]
    exact h
  · intro _
    refine ⟨width, p, ?_, ?_, (lr_step hlr).1⟩ <;>
      obtain ⟨word, _, hop, hwidth, start, q, va, _, _, hacc, hta⟩ := hlr
    · exact atomic_width_cases hwidth
    · obtain ⟨_, rfl, hal⟩ := atomic_access hop hwidth hacc
      rw [atomic_aligned_iff] at *
      exact translate_aligned hal hta
  · intro hvalid
    rw [sc_reservation hsc] at hvalid
    cases hvalid
  · intro hvalid
    rw [stores_reservation hst, invalidate_eq] at hvalid ⊢
    simp only [Bool.and_eq_true] at hvalid
    obtain ⟨width, p, hw, hal, he⟩ := h hvalid.1
    refine ⟨width, p, hw, hal, ?_⟩
    rw [he, hvalid.2]
    rfl

theorem reachable_shaped {vm : Vm} (h : Reachable vm) : Shaped vm.cpu.reservation := by
  induction h with
  | init ram =>
    intro hvalid
    cases hvalid
  | boot ram =>
    intro hvalid
    cases hvalid
  | iterate vm host h ih =>
    rw [mainLoop, tick_reservation]
    exact step_shaped ih

/-- M without MPRV and without an interrupt enabled, as a reset leaves it. -/
structure Bare (cpu : Cpu) : Prop where
  priviledge : cpu.priviledge = mMode
  mprv : (cpu.csrs csrMstatus).getLsbD 17 = false
  mie : cpu.csrs csrMie = 0
  pcWritten : cpu.pcWritten = false

theorem Bare.translate {cpu : Cpu} (h : Bare cpu) (bus : Bus) (va : BitVec 64) (acc : AccessType) :
    translateAddress cpu bus va acc = (bus, .ok va) := by
  apply translate_machine
  unfold effectivePriviledge
  rw [h.mprv, h.priviledge]
  exact if_neg fun hmprv => Bool.false_ne_true hmprv.2.2

theorem selected_disabled {cpu : Cpu} (h : cpu.csrs csrMie = 0) : selected cpu = none := by
  refine List.find?_eq_none.mpr fun cause _ => ?_
  simp [takeable, h]

/-- A step that only writes a register. -/
theorem bare_step {vm : Vm} {word : BitVec 32} {r : BitVec 5} {value : BitVec 64}
    (h : Bare vm.cpu) (hword : vmBusRead32 vm.bus vm.cpu.pc = word)
    (hd : dispatchInstruction (fetched vm vm.bus) word =
      (fetched vm vm.bus).onCpu (cpuWriteReg · r value)) :
    Bare (cpuStep vm).cpu ∧ (cpuStep vm).bus = vm.bus ∧ (cpuStep vm).cpu.pc = vm.cpu.pc + 4 ∧
      (cpuStep vm).cpu.reservation = vm.cpu.reservation ∧
      (cpuStep vm).cpu.regs = (cpuWriteReg vm.cpu r value).regs := by
  obtain ⟨hp, hstep⟩ := step_of_fetch (h.translate vm.bus vm.cpu.pc .fetch)
  rw [hword, hd] at hp
  have htaken : (fetched vm vm.bus).cpu.trapTaken = false := rfl
  have hwritten : (fetched vm vm.bus).cpu.pcWritten = false := h.pcWritten
  have hcsrs : ∀ a, a ≠ csrMinstret → a ≠ csrMcycle →
      (processed vm).cpu.csrs a = vm.cpu.csrs a := by
    intro a hi hc
    rw [hp, retire_csrs _ hi, on_cpu_cpu, write_reg_csrs]
    exact begin_csrs vm.cpu hc
  have hmie := (hcsrs csrMie (by decide) (by decide)).trans h.mie
  have hcpu : (cpuStep vm).cpu = { (processed vm).cpu with pcWritten := false } := by
    rw [hstep, finish, on_cpu_cpu, check_interrupts_eq, selected_disabled hmie]
  have hpriv : (processed vm).cpu.priviledge = mMode := by
    rw [hp, retire_priviledge, on_cpu_cpu, write_reg_priviledge]
    exact h.priviledge
  have hmprv : ((processed vm).cpu.csrs csrMstatus).getLsbD 17 = false := by
    rw [hcsrs csrMstatus (by decide) (by decide)]
    exact h.mprv
  rw [hcpu]
  refine ⟨⟨hpriv, hmprv, hmie, rfl⟩, ?_, ?_, ?_, ?_⟩
  · rw [hstep, hp]
    rfl
  · rw [hp, retire_cpu]
    simp only [on_cpu_cpu, write_reg_trap_taken, htaken, write_reg_pc_written, hwritten,
      write_reg_pc, Bool.false_eq_true, if_false]
    rfl
  · rw [hp, retire_reservation, on_cpu_cpu, write_reg_reservation]
    rfl
  · rw [hp, retire_regs, on_cpu_cpu]
    exact write_begin_regs vm.cpu r value

/-- `auipc x1, 0; ld x1, 16(x1)`, then `sc.w x3, x0, (x1)` or `sc.d x3, x0, (x1)`,
then the address `p`. -/
def scProgram (width : Width) (p : BitVec 64) : Memory :=
  ramOf [(0, 0x0100B08300000097), (8, if width = .w32 then 0x1800A1AF else 0x1800B1AF), (16, p)]

/-- The instructions of the program do not depend on the address after them. -/
theorem sc_program_word (width : Width) (p : BitVec 64) {q : BitVec 64}
    (hq : memBase.toNat ≤ q.toNat ∧ q.toNat + 4 ≤ memBase.toNat + 16) :
    vmBusRead32 (busOf (scProgram width p)) q = vmBusRead32 (busOf (scProgram width 0)) q := by
  have hb : memBase.toNat = 2147483648 := rfl
  have hs : memSize.toNat = 67108864 := rfl
  have hram : InRam q 4 := ⟨hq.1, by omega⟩
  have hread : ∀ p, vmBusRead32 (busOf (scProgram width p)) q =
      oldWord .w32 (busOf (scProgram width p)) q := fun p => amo_read_w hram
  rw [hread, hread]
  refine ByteMap.read_congr fun i hi => ?_
  have hi4 : i < 4 := hi
  have hout : ∀ p : BitVec 64, ByteMap.write (ramOf [(0, 0x0100B08300000097),
      (8, if width = .w32 then 0x1800A1AF else 0x1800B1AF)]).mem 16 p 8
        (q - memBase + BitVec.ofNat 64 i) = (ramOf [(0, 0x0100B08300000097),
      (8, if width = .w32 then 0x1800A1AF else 0x1800B1AF)]).mem
        (q - memBase + BitVec.ofNat 64 i) := by
    intro p
    refine ByteMap.write_outside _ _ _ (by omega) ?_
    rw [BitVec.toNat_sub, BitVec.toNat_add, BitVec.toNat_sub, BitVec.toNat_ofNat]
    have h16 : (16 : BitVec 64).toNat = 16 := rfl
    omega
  exact (hout p).trans (hout 0).symm

/-- Bare at this place of the program, with these in `x1` and the reservation. -/
structure RunsSc (vm : Vm) (width : Width) (p pc x1 : BitVec 64) : Prop where
  bare : Bare vm.cpu
  bus : vm.bus = busOf (scProgram width p)
  pc : vm.cpu.pc = pc
  x1 : vm.cpu.regs 1 = x1
  reservation : vm.cpu.reservation = reservationOf p width

section
variable {vm : Vm} {width : Width} {p : BitVec 64}

theorem RunsSc.next {pc x1 value : BitVec 64} {word : BitVec 32} (h : RunsSc vm width p pc x1)
    (hword : vmBusRead32 vm.bus vm.cpu.pc = word)
    (hd : dispatchInstruction (fetched vm vm.bus) word =
      (fetched vm vm.bus).onCpu (cpuWriteReg · 1 value)) :
    RunsSc (cpuStep vm) width p (pc + 4) value := by
  obtain ⟨hbare, hbus, hpc, hres, hregs⟩ := bare_step h.bare hword hd
  refine ⟨hbare, hbus.trans h.bus, hpc.trans (by rw [h.pc]), ?_, hres.trans h.reservation⟩
  rw [hregs, write_reg_regs]
  rfl

theorem RunsSc.auipc (h : RunsSc vm width p memBase 0) :
    vmBusRead32 vm.bus vm.cpu.pc = 0x97 ∧ RunsSc (cpuStep vm) width p (memBase + 4) memBase := by
  have hword : vmBusRead32 vm.bus vm.cpu.pc = 0x97 := by
    rw [h.bus, h.pc, sc_program_word width p (by decide)]
    cases width <;> decide
  have hd := @dispatch_auipc (fetched vm vm.bus) 1 0
  have hvalue : (fetched vm vm.bus).cpu.pc + Rv64i.wrap ((0 : BitVec 20).toInt * 2 ^ 12) = memBase := by
    rw [show (fetched vm vm.bus).cpu.pc = memBase from h.pc]
    decide
  rw [hvalue] at hd
  exact ⟨hword, h.next hword hd⟩

theorem RunsSc.ld (h : RunsSc vm width p (memBase + 4) memBase) :
    vmBusRead32 vm.bus vm.cpu.pc = 0x0100B083 ∧ RunsSc (cpuStep vm) width p (memBase + 8) p := by
  have hword : vmBusRead32 vm.bus vm.cpu.pc = 0x0100B083 := by
    rw [h.bus, h.pc, sc_program_word width p (by decide)]
    cases width <;> decide
  have haddr : cpuReadReg (fetched vm vm.bus).cpu 1 + Rv64i.wrap (16 : BitVec 12).toInt =
      memBase + 16 := by
    rw [show cpuReadReg (fetched vm vm.bus).cpu 1 = memBase from h.x1]
    decide
  have ht : translateAddress (fetched vm vm.bus).cpu vm.bus
      (cpuReadReg (fetched vm vm.bus).cpu 1 + Rv64i.wrap (16 : BitVec 12).toInt) .load =
        (vm.bus, .ok (memBase + 16)) := by
    rw [fetched_cpu, translate_begin, ← fetched_cpu vm vm.bus, haddr]
    exact h.bare.translate _ _ _
  have hd := @dispatch_load (fetched vm vm.bus) 1 1 .ld 16 _ _ ht (by decide)
  have hloaded : loaded .ld vm.bus.ram.mem (memBase + 16 - memBase) = p := by
    rw [h.bus]
    exact (BitVec.signExtend_eq _).trans (ByteMap.read_write _ _ p (by decide) rfl)
  rw [hloaded] at hd
  exact ⟨hword, h.next hword hd⟩

theorem RunsSc.sc (h : RunsSc vm width p (memBase + 8) p) (hw : width = .w32 ∨ width = .w64)
    (hal : AtomicAligned width p) : ScStores vm width p vm.bus := by
  have hx1 : cpuReadReg (fetched vm vm.bus).cpu 1 = p := h.x1
  have hstep : ∀ word, vmBusRead32 vm.bus vm.cpu.pc = word → opcodeOf word = Opcode.code .amo →
      atomicWidth word = some width → atomicAccess word = some .store → rs1Of word = 1 →
        funct5Of word = funct5Sc → ScStores vm width p vm.bus := by
    intro word hword hop hwidth hacc hrs1 hf
    have hdata := (amo_aligned (fetched vm vm.bus) (of_raw_of_code hop) hwidth hacc
      (by rwa [hrs1, hx1])).1
    rw [hrs1, hx1] at hdata
    exact ⟨word, hf, ⟨hop, hwidth, vm.bus, vm.cpu.pc, p, h.bare.translate _ _ _, hword, hdata,
      h.bare.translate _ _ _⟩, h.reservation⟩
  rcases hw with rfl | rfl
  · refine hstep 0x1800A1AF ?_ (by decide) (by decide) (by decide) (by decide) (by decide)
    rw [h.bus, h.pc, sc_program_word _ p (by decide)]
    decide
  · refine hstep 0x1800B1AF ?_ (by decide) (by decide) (by decide) (by decide) (by decide)
    rw [h.bus, h.pc, sc_program_word _ p (by decide)]
    decide

/-- The step is no LR when its word is none. -/
theorem RunsSc.no_lr {pc x1 : BitVec 64} {word : BitVec 32} (h : RunsSc vm width p pc x1)
    (hword : vmBusRead32 vm.bus vm.cpu.pc = word) (hne : opcodeOf word ≠ Opcode.code .amo)
    {other : Width} {q : BitVec 64} {read : Bus} : ¬ LrReserves vm other q read := by
  rintro ⟨word', _, hop, _, start, a, va, ht, hread, _, _⟩
  rw [h.bare.translate] at ht
  cases ht
  rw [hword] at hread
  rw [← hread] at hop
  exact hne hop

end

/-- A reservation that a reset finds lets an SC store after it. -/
theorem stale_sc {cpu : Cpu} {width : Width} {p : BitVec 64} (hpc : cpu.pcWritten = false)
    (hw : width = .w32 ∨ width = .w64) (hal : AtomicAligned width p)
    (hres : cpu.reservation = reservationOf p width) : ¬ ScNeedsLr cpu := by
  have hmprv : ((cpuReset cpu memBase).csrs csrMstatus).getLsbD 17 = false := by
    have hstatus : (cpuReset cpu memBase).csrs csrMstatus = 3#64 <<< 11 := rfl
    rw [hstatus]
    decide
  have hstart : RunsSc (afterReset cpu memBase (busOf (scProgram width p)) 0) width p memBase 0 :=
    ⟨⟨rfl, hmprv, rfl, hpc⟩, rfl, rfl, rfl, hres⟩
  obtain ⟨hword, hfirst⟩ := hstart.auipc
  obtain ⟨hword', hsecond⟩ := hfirst.ld
  intro h
  obtain ⟨j, hj, read, hlr⟩ := h memBase (busOf (scProgram width p)) 2 width p _
    (hsecond.sc hw hal)
  match j, hj with
  | 0, _ => exact hstart.no_lr hword (by decide) hlr
  | 1, _ => exact hfirst.no_lr hword' (by decide) hlr

/-- Reset forgets the past of two reachable states exactly when neither holds a
valid reservation and what is left of their reservations is the same: it assigns
everything else that a run may change. -/
theorem reset_forgets_iff {a b : Vm} (ha : Reachable a) (hb : Reachable b) :
    SameReset a.cpu b.cpu ↔
      a.cpu.reservation = b.cpu.reservation ∧ a.cpu.reservation.valid = false := by
  constructor
  · intro h
    refine ⟨(reset_eq_iff ha hb memBase).mp (h.state memBase), ?_⟩
    cases hvalid : a.cpu.reservation.valid with
    | false => rfl
    | true =>
      obtain ⟨width, p, hw, hal, hres⟩ := reachable_shaped ha hvalid
      exact absurd h.sc.1 (stale_sc (reachable_settled ha).pcWritten hw hal hres)
  · rintro ⟨heq, hvalid⟩
    have hstate := fun addr => (reset_eq_iff ha hb addr).mpr heq
    refine ⟨hstate, fun addr bus n => ?_, sc_needs_lr hvalid, sc_needs_lr (heq ▸ hvalid)⟩
    unfold afterReset
    rw [hstate addr]

/-- Two machines that have not reserved anything. -/
theorem reset_forgets_fresh :
    SameReset (mainLoop (vmInit (ramOf [])) .quiet).cpu (vmBoot (ramOf [(0, 0x13)])).cpu :=
  (reset_forgets_iff (.iterate _ .quiet (.init _)) (.boot _)).mpr
    ⟨by decide, by decide⟩

/-- `auipc x1, 0; lr.d x2, (x1)`, and then
`auipc x1, 0; addi x1, x1, -8; sc.d x3, x0, (x1)`. -/
def resetProgram : Memory :=
  ramOf [(0, 0x1000B12F00000097), (8, 0xFF80809300000097), (16, 0x1800B1AF)]

/-- The machine is reset between the LR and the SC, and the SC stores. -/
theorem reset_keeps_reservation :
    Reachable (quietly 2 (vmInit resetProgram)) ∧ Reachable (vmInit resetProgram) ∧
      ¬ SameReset (quietly 2 (vmInit resetProgram)).cpu (vmInit resetProgram).cpu ∧
      (∃ before, ScStores (afterReset (quietly 2 (vmInit resetProgram)).cpu 0x80000008
        (quietly 2 (vmInit resetProgram)).bus 2) .w64 0x80000000 before) := by
  have hsc := @atomic_step_of (afterReset (quietly 2 (vmInit resetProgram)).cpu 0x80000008
    (quietly 2 (vmInit resetProgram)).bus 2) 0x1800B1AF .store .w64 0x80000000 0x80000010 0x80000000 _
    rfl (by decide) (by decide) (by decide) (by decide) (by decide)
    (by decide)
  refine ⟨quietly_reachable 2 (.init _), .init _, fun h => ?_, _, _, by decide, hsc,
    by decide⟩
  have hres := congrArg (fun cpu : Cpu => cpu.reservation.valid) (h.state memBase)
  revert hres
  decide

end RiscvVm.Proofs
