import RiscvVm.Lib.Past
import RiscvVm.Proofs.Precise
import RiscvVm.Proofs.Refinement
import RiscvVm.Proofs.Reservation

namespace RiscvVm.Proofs

/-- The reservation of an LR of this width at the physical address `p`. -/
def reservationOf (p : BitVec 64) (width : Width) : Reservation :=
  { valid := true, physAddr := p, size := BitVec.ofNat 8 width.bytes }

/-- The step is an LR that reserves something. -/
def LrCompletes (vm : Vm) : Prop := ∃ width p read, LrReserves vm width p read

/-- The step is an SC that is not refused by an exception: it stores, or it
reports that it has not. -/
def ScCompletes (vm : Vm) : Prop :=
  ∃ word width p bus, funct5Of word = funct5Sc ∧ AtomicStep vm word .store width p bus

/-- The step is a store instruction of this width, and the access it makes is
translated to `q`. -/
structure StoreStep (vm : Vm) (word : BitVec 32) (width : Width) (q : BitVec 64) : Prop where
  store : IsStore word
  width : storeWidthOf word = some width
  access : ∃ start a va bus, translateAddress vm.cpu vm.bus vm.cpu.pc .fetch = (start, .ok a) ∧
    vmBusRead32 start a = word ∧ dataAccess (fetched vm start) word = some (.store, va) ∧
    translateAddress vm.cpu start va .store = (bus, .ok q)

/-- The step is a store or an AMO that retires, of the bytes of this width at
`q`. -/
def StoresTo (vm : Vm) (width : Width) (q : BitVec 64) : Prop :=
  (∃ word, StoreStep vm word width q) ∨
    ∃ word bus, isAmo (funct5Of word) = true ∧ AtomicStep vm word .store width q bus

/-- What must not happen between an LR and its SC. -/
structure Undisturbed (vm : Vm) (p : BitVec 64) (width : Width) : Prop where
  lr : ¬ LrCompletes vm
  sc : ¬ ScCompletes vm
  store : ∀ q other, StoresTo vm other q → ¬ Overlaps (reservationOf p width) q other.bytes

theorem invalidate_begin (cpu : Cpu) (p : BitVec 64) (size : BitVec 8) :
    (cpuInvalidateReservation (beginStep cpu) p size).reservation =
      (cpuInvalidateReservation cpu p size).reservation := by
  rw [invalidate_eq, invalidate_eq]
  rfl

/-- The handler of a store, by its width. -/
theorem store_dispatch (vm : Vm) {word : BitVec 32} {width : Width} (hop : IsStore word)
    (hwidth : storeWidthOf word = some width) :
    dispatchInstruction vm word = storeOp width vm (decodeS word) := by
  rw [dispatch_store_word (of_raw_of_code hop)]
  unfold storeWidthOf at hwidth
  unfold dispatchStore
  rw [decode_s_funct3]
  revert hwidth
  generalize funct3Of word = funct3
  split <;> intro hwidth <;> cases hwidth <;> rfl

theorem store_access {vm : Vm} {word : BitVec 32} {va : BitVec 64} (hop : IsStore word)
    (h : dataAccess vm word = some (.store, va)) :
    va = cpuReadReg vm.cpu (decodeS word).rs1 + (decodeS word).imm := by
  unfold dataAccess at h
  rw [of_raw_of_code hop] at h
  dsimp only at h
  split at h
  · cases h
    rfl
  · cases h

/-- An AMO that is not refused by an exception. -/
theorem amo_eq (vm : Vm) {w : Nat} {atomic : AtomicWidth w} {width : Width} (instruction : AType)
    {bus : Bus} {p : BitVec 64} {new : BitVec w} (hs : SameWidth atomic width)
    (hal : AtomicAligned width (cpuReadReg vm.cpu instruction.rs1))
    (ht : translateAddress vm.cpu vm.bus (cpuReadReg vm.cpu instruction.rs1) .store = (bus, .ok p))
    (hnew : amoResult instruction.funct5 (atomic.read bus p)
      (atomic.truncate (cpuReadReg vm.cpu instruction.rs2)) = some new) :
    amo atomic vm instruction =
      { cpu := cpuWriteReg
          (cpuInvalidateReservation vm.cpu p (BitVec.ofNat 8 width.bytes)) instruction.rd
          (atomic.extend (atomic.read bus p))
        bus := atomic.write bus p new } := by
  unfold amo AtomicAligned at *
  simp only [hs.mask, hs.size, hal, ht, hnew, ne_eq, not_true_eq_false, if_false]

/-- A store or an AMO that retires goes through `cpu_invalidate_reservation`. -/
theorem stores_reservation {vm : Vm} {width : Width} {q : BitVec 64} (h : StoresTo vm width q) :
    (cpuStep vm).cpu.reservation =
      (cpuInvalidateReservation vm.cpu q (BitVec.ofNat 8 width.bytes)).reservation := by
  rcases h with ⟨word, hop, hwidth, start, a, va, bus, ht, hword, hacc, hta⟩ |
    ⟨word, bus, hamo, hop, hwidth, start, a, va, ht, hword, hacc, hta⟩
  all_goals
    obtain ⟨hp, hstep⟩ := step_of_fetch ht
    rw [← translate_begin] at hta
    rw [hstep, hp, hword, (finish_retire _).1, ← invalidate_begin]
  · have hva := store_access hop hacc
    subst hva
    rw [store_dispatch _ hop hwidth]
    unfold storeOp cpuStore
    dsimp only
    rw [fetched_cpu] at hta ⊢
    rw [show (fetched vm start).bus = start from rfl, hta]
  · obtain ⟨_, rfl, hal⟩ := atomic_access hop hwidth hacc
    obtain ⟨w, atomic, hs, _, _, _, hdone⟩ := dispatch_atomic (fetched vm start) hop hwidth
    obtain ⟨new, hnew⟩ := amo_result_some hamo (atomic.read bus q)
      (atomic.truncate (cpuReadReg (fetched vm start).cpu (rs2Of word)))
    rw [hdone hamo, amo_eq (fetched vm start) (decodeA word) hs hal hta hnew]
    exact write_reg_reservation _ _ _

/-- What a store leaves of a reservation in RAM. -/
theorem invalidate_keeps {cpu : Cpu} {p : BitVec 64} (hram : InRam p 1) (width : Width)
    (q : BitVec 64) (other : Width) :
    (cpuInvalidateReservation cpu q (BitVec.ofNat 8 other.bytes)).reservation =
        reservationOf p width ↔
      cpu.reservation = reservationOf p width ∧
        ¬ Overlaps (reservationOf p width) q other.bytes := by
  have hhits : cpu.reservation = reservationOf p width →
      (Hits cpu q (BitVec.ofNat 8 other.bytes) ↔
        Overlaps (reservationOf p width) q other.bytes) := by
    intro h
    have hin : InRam cpu.reservation.physAddr 0 := by
      rw [h]
      exact hram.mono (Nat.zero_le 1)
    rw [hits_iff (by rw [h]; rfl) (Width.bytes_le other) (Or.inr hin), h]
  rw [invalidate_eq]
  constructor
  · intro h
    injection h with hvalid haddr hsize
    rw [Bool.and_eq_true, Bool.not_eq_true', decide_eq_false_iff_not] at hvalid
    have hres := (reservation_matches cpu.reservation _ _).mp ⟨haddr, hvalid.1, hsize⟩
    exact ⟨hres, fun hover => hvalid.2 ((hhits hres).mpr hover)⟩
  · rintro ⟨hres, hmiss⟩
    rw [decide_eq_false fun hit => hmiss ((hhits hres).mp hit), Bool.not_false, Bool.and_true]
    exact hres

theorem reservation_of_inj {p q : BitVec 64} {width other : Width}
    (h : reservationOf p width = reservationOf q other) : p = q ∧ width = other := by
  injection h with _ hp hsize
  refine ⟨hp, ?_⟩
  revert hsize
  cases width <;> cases other <;> decide

theorem sc_reservation {vm : Vm} (h : ScCompletes vm) :
    (cpuStep vm).cpu.reservation.valid = false := by
  obtain ⟨word, width, p, bus, hf, hsc⟩ := h
  obtain ⟨hp, hstep⟩ := sc_processed hf hsc
  rw [hstep, hp, (finish_retire _).1]
  split <;> rfl

/-- Only four kinds of steps touch the reservation. -/
theorem step_reservation (vm : Vm) :
    (cpuStep vm).cpu.reservation = vm.cpu.reservation ∨ LrCompletes vm ∨ ScCompletes vm ∨
      ∃ width q, StoresTo vm width q := by
  rcases step_cases vm with ⟨_, hp, hs⟩ | ⟨start, a, done, ht, hexec, hp, hs⟩
  · rw [hs, hp]
    exact Or.inl (raise_exception_frame _ _ _).reservation
  rw [hs, hp, (finish_retire done).1]
  have htr : ∀ {va : BitVec 64} {acc : AccessType} {bus : Bus} {q : BitVec 64},
      translateAddress (fetched vm start).cpu (fetched vm start).bus va acc = (bus, .ok q) →
        translateAddress vm.cpu start va acc = (bus, .ok q) := by
    intro va acc bus q h
    rwa [fetched_cpu, translate_begin] at h
  cases hexec with
  | nop => exact Or.inl rfl
  | write value => exact Or.inl (write_reg_reservation _ _ _)
  | branch target => exact Or.inl rfl
  | link target value => exact Or.inl (write_reg_reservation _ _ _)
  | trap hfault => exact Or.inl (raise_exception_frame _ _ _).reservation
  | load width va q bus extend hacc hta => exact Or.inl (write_reg_reservation _ _ _)
  | store width va q value bus hacc hta hstore hwidth =>
    exact .inr (.inr (.inr ⟨width, q, .inl ⟨_, hstore, hwidth, start, a, va, bus, ht, rfl, hacc,
      htr hta⟩⟩))
  | amo width va q new old bus hwidth hacc hta hamo =>
    exact .inr (.inr (.inr ⟨width, q, .inr ⟨_, bus, hamo.2, hamo.1, hwidth, start, a, va, ht, rfl,
      hacc, htr hta⟩⟩))
  | lr width va q value bus hword hwidth hacc hta =>
    exact .inr (.inl ⟨width, q, bus, _, hword.2, hword.1, hwidth, start, a, va, ht, rfl, hacc,
      htr hta⟩)
  | sc width va q value bus hword hwidth hacc hta =>
    exact .inr (.inr (.inl ⟨_, width, q, bus, hword.2, hword.1, hwidth, start, a, va, ht, rfl, hacc,
      htr hta⟩))
  | scFailed width va q bus hword hwidth hacc hta =>
    exact .inr (.inr (.inl ⟨_, width, q, bus, hword.2, hword.1, hwidth, start, a, va, ht, rfl, hacc,
      htr hta⟩))
  | csr addr new old cpu hreq hw =>
    left
    dsimp only
    rw [write_reg_reservation, writes_eq (csr_write_cases hw).2]
    rfl
  | sret hword hpriv =>
    rw [sret_eq _ hpriv]
    exact Or.inl rfl
  | mret hword hpriv =>
    rw [mret_eq _ hpriv]
    exact Or.inl rfl

/-- A step sets this reservation, keeps it or ends it. -/
theorem step_reserves {p : BitVec 64} (hram : InRam p 1) (width : Width) (vm : Vm) :
    (cpuStep vm).cpu.reservation = reservationOf p width ↔
      (∃ read, LrReserves vm width p read) ∨
        (vm.cpu.reservation = reservationOf p width ∧ Undisturbed vm p width) := by
  constructor
  · intro h
    by_cases hlr : LrCompletes vm
    · obtain ⟨other, q, read, hother⟩ := hlr
      obtain ⟨rfl, rfl⟩ := reservation_of_inj (h.symm.trans (lr_step hother).1)
      exact Or.inl ⟨read, hother⟩
    have hsc : ¬ ScCompletes vm := by
      intro hsc
      have hinvalid := sc_reservation hsc
      rw [h] at hinvalid
      cases hinvalid
    have hstore : ∀ q other, StoresTo vm other q →
        vm.cpu.reservation = reservationOf p width ∧
          ¬ Overlaps (reservationOf p width) q other.bytes := by
      intro q other hst
      rw [stores_reservation hst] at h
      exact (invalidate_keeps hram width q other).mp h
    have hbefore : vm.cpu.reservation = reservationOf p width := by
      rcases step_reservation vm with hsame | hl | hs | ⟨other, q, hst⟩
      · exact hsame.symm.trans h
      · exact absurd hl hlr
      · exact absurd hs hsc
      · exact (hstore q other hst).1
    exact Or.inr ⟨hbefore, hlr, hsc, fun q other hst => (hstore q other hst).2⟩
  · rintro (⟨read, hlr⟩ | ⟨hbefore, hlr, hsc, hstore⟩)
    · exact (lr_step hlr).1
    rcases step_reservation vm with hsame | hl | hs | ⟨other, q, hst⟩
    · exact hsame.trans hbefore
    · exact absurd hl hlr
    · exact absurd hs hsc
    · rw [stores_reservation hst]
      exact (invalidate_keeps hram width q other).mpr ⟨hbefore, hstore q other hst⟩

/-- The first `k` steps of a run, alone or in iterations of the main loop. -/
def Runs (run : Nat → Vm) (k : Nat) : Prop :=
  ∀ i < k, run (i + 1) = cpuStep (run i) ∨ ∃ host, run (i + 1) = mainLoop (run i) host

/-- Before the `k`th step an LR of this width has reserved the bytes at `p`,
and every step since then has left it alone. -/
def ReservedBefore (run : Nat → Vm) (p : BitVec 64) (width : Width) (k : Nat) : Prop :=
  Past.Since (fun i => ∃ read, LrReserves (run i) width p read)
    (fun i => Undisturbed (run i) p width) k

/-- The reservation the CPU holds is what the history of the run says. -/
theorem run_reserves {run : Nat → Vm} {k : Nat} (hrun : Runs run k)
    (hstart : (run 0).cpu.reservation.valid = false) {p : BitVec 64} (hram : InRam p 1)
    (width : Width) :
    (run k).cpu.reservation = reservationOf p width ↔ ReservedBefore run p width k := by
  refine Past.latch (fun i => (run i).cpu.reservation = reservationOf p width) ?_ fun i hi => ?_
  · intro h
    rw [h] at hstart
    cases hstart
  · have hstep := step_reserves hram width (run i)
    rcases hrun i hi with h | ⟨host, h⟩
    · rw [h]
      exact hstep
    · rw [h, mainLoop, tick_reservation]
      exact hstep

/-- The step writes `code` to `rd`, leaves this bus and no valid reservation. -/
structure ScEnds (vm : Vm) (word : BitVec 32) (code : BitVec 64) (bus : Bus) : Prop where
  regs : (cpuStep vm).cpu.regs = (cpuWriteReg vm.cpu (rdOf word) code).regs
  bus : (cpuStep vm).bus = bus
  reservation : (cpuStep vm).cpu.reservation.valid = false

theorem finish_retire_regs (vm : Vm) : (finish (retire vm)).cpu.regs = vm.cpu.regs :=
  (check_interrupts_frame (retire vm).cpu).regs.trans (retire_regs vm)

theorem write_begin_regs (cpu : Cpu) (r : BitVec 5) (value : BitVec 64) :
    (cpuWriteReg (beginStep cpu) r value).regs = (cpuWriteReg cpu r value).regs := by
  rw [write_reg_eq, write_reg_eq]
  rfl

/-- An SC stores if it finds its reservation, and reports what it has done. -/
theorem sc_ends {vm : Vm} {word : BitVec 32} {width : Width} {p : BitVec 64} {bus : Bus}
    (hf : funct5Of word = funct5Sc) (h : AtomicStep vm word .store width p bus) :
    (vm.cpu.reservation = reservationOf p width →
      ScEnds vm word 0 (vmBusWrite width bus p (cpuReadReg vm.cpu (rs2Of word)))) ∧
    (vm.cpu.reservation ≠ reservationOf p width → ScEnds vm word 1 bus) := by
  obtain ⟨hp, hstep⟩ := sc_processed hf h
  have hinvalid := sc_reservation ⟨word, width, p, bus, hf, h⟩
  unfold reservationOf
  refine ⟨fun hres => ⟨?_, ?_, hinvalid⟩, fun hres => ⟨?_, ?_, hinvalid⟩⟩
  · rw [hstep, hp, if_pos hres, finish_retire_regs]
    exact write_begin_regs _ _ _
  · rw [hstep, hp, if_pos hres, (finish_retire _).2]
  · rw [hstep, hp, if_neg hres, finish_retire_regs]
    exact write_begin_regs _ _ _
  · rw [hstep, hp, if_neg hres, (finish_retire _).2]

theorem ScEnds.code {vm : Vm} {word : BitVec 32} {code : BitVec 64} {bus : Bus}
    (h : ScEnds vm word code bus) (hrd : rdOf word ≠ 0) :
    cpuReadReg (cpuStep vm).cpu (rdOf word) = code := by
  rw [cpuReadReg, if_neg hrd, h.regs, write_reg_regs]
  exact if_pos ⟨rfl, hrd⟩

/-- The walks of the fetch and of the access only mark leaf entries. -/
theorem atomic_step_marks {vm : Vm} {word : BitVec 32} {acc : AccessType} {width : Width}
    {p : BitVec 64} {bus : Bus} (h : AtomicStep vm word acc width p bus) :
    ∃ start, MarksOnly vm.bus start ∧ MarksOnly start bus := by
  obtain ⟨start, q, va, ht, _, _, hta⟩ := h.access
  have hfetch := translate_marks vm.cpu vm.bus vm.cpu.pc .fetch
  have hdata := translate_marks vm.cpu start va acc
  rw [ht] at hfetch
  rw [hta] at hdata
  exact ⟨start, hfetch, hdata⟩

/-- A step that raises an exception leaves the reservation as it was. -/
theorem trapped_reservation {vm : Vm} (h : (processed vm).cpu.trapTaken = true) :
    (cpuStep vm).cpu.reservation = vm.cpu.reservation := by
  have hp := processed_trapped h
  have hres : (processed vm).cpu.reservation = vm.cpu.reservation := by
    rw [hp]
    exact (raise_exception_frame _ _ _).reservation
  rcases step_cases vm with ⟨_, _, hs⟩ | ⟨_, _, _, _, _, _, hs⟩
  · rw [hs, hres]
  · rw [hs]
    exact (check_interrupts_frame (processed vm).cpu).reservation.trans hres

/-- An SC to RAM stores exactly when an LR has reserved its bytes and nothing
has disturbed the reservation since. If not, only its walks touch memory. -/
theorem sc_stores_iff_reserved {run : Nat → Vm} {k : Nat} (hrun : Runs run k)
    (hstart : (run 0).cpu.reservation.valid = false) {word : BitVec 32} {width : Width}
    {p : BitVec 64} {bus : Bus} (hf : funct5Of word = funct5Sc)
    (hsc : AtomicStep (run k) word .store width p bus) (hram : InRam p 1) :
    (ReservedBefore run p width k →
      ScEnds (run k) word 0 (vmBusWrite width bus p (cpuReadReg (run k).cpu (rs2Of word)))) ∧
    (¬ ReservedBefore run p width k → ScEnds (run k) word 1 bus) ∧
    (rdOf word ≠ 0 →
      (cpuReadReg (cpuStep (run k)).cpu (rdOf word) = 0 ↔ ReservedBefore run p width k)) ∧
    (∃ start, MarksOnly (run k).bus start ∧ MarksOnly start bus) ∧
    ∀ vm, (processed vm).cpu.trapTaken = true →
      (cpuStep vm).cpu.reservation = vm.cpu.reservation := by
  have hreserved := run_reserves hrun hstart hram width
  obtain ⟨hstored, hrefused⟩ := sc_ends hf hsc
  rw [hreserved] at hstored
  have hrefused' : ¬ ReservedBefore run p width k → ScEnds (run k) word 1 bus :=
    fun h => hrefused fun he => h (hreserved.mp he)
  refine ⟨hstored, hrefused', fun hrd => ⟨fun hzero => ?_, fun h => (hstored h).code hrd⟩,
    atomic_step_marks hsc, fun vm => trapped_reservation⟩
  by_contra h
  have hone := (hrefused' h).code hrd
  rw [hzero] at hone
  cases hone

/-- The store beside the reservation does not disturb it. -/
theorem sc_reserved_beside_store :
    ReservedBefore (fun i => Nat.repeat cpuStep i lrScProgram) 0x80001010 .w64 2 := by
  have hmode : ∀ acc, effectivePriviledge (cpuStep (cpuStep lrScProgram)).cpu acc = mMode := by
    intro acc
    cases acc <;> decide
  have hsc : AtomicStep (cpuStep (cpuStep lrScProgram)) 0x1820B1AF .store .w64 0x80001010
      (cpuStep (cpuStep lrScProgram)).bus :=
    ⟨by decide, by decide, _, _, 0x80001010, translate_machine (hmode _) _ _, by decide,
      by decide, translate_machine (hmode _) _ _⟩
  have hcode : cpuReadReg (cpuStep (cpuStep (cpuStep lrScProgram))).cpu 3 = 0 := by decide
  have hiff := (@sc_stores_iff_reserved (fun i => Nat.repeat cpuStep i lrScProgram) 2
    (fun i _ => Or.inl rfl) (by decide) 0x1820B1AF .w64 0x80001010 _ (by decide) hsc
    (by decide)).2.2.1 (by decide)
  exact hiff.mp hcode

end RiscvVm.Proofs
