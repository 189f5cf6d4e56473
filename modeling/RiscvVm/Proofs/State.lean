import RiscvVm.Step
import RiscvVm.Lib.Bits
import RiscvVm.Proofs.Bus

namespace RiscvVm.Proofs

@[simp] theorem set_csr_csrs (cpu : Cpu) (a b : BitVec 12) (v : BitVec 64) :
    (cpu.setCsr a v).csrs b = if b = a then v else cpu.csrs b := rfl

@[simp] theorem set_csr_regs (cpu : Cpu) (a : BitVec 12) (v : BitVec 64) :
    (cpu.setCsr a v).regs = cpu.regs := rfl

/-- Writing a register changes that register only, and never `x0`. -/
theorem write_reg_regs (cpu : Cpu) (r x : BitVec 5) (v : BitVec 64) :
    (cpuWriteReg cpu r v).regs x = if x = r ∧ r ≠ 0 then v else cpu.regs x := by
  unfold cpuWriteReg
  by_cases hr : r = 0
  · rw [if_pos hr, if_neg fun h => h.2 hr]
  · rw [if_neg hr]
    by_cases hx : x = r
    · rw [if_pos ⟨hx, hr⟩]
      exact if_pos hx
    · rw [if_neg fun h => hx h.1]
      exact if_neg hx

/-- The record a register write leaves, with the register file made explicit. -/
theorem write_reg_eq (cpu : Cpu) (r : BitVec 5) (v : BitVec 64) :
    cpuWriteReg cpu r v =
      { cpu with regs := fun x => if x = r ∧ r ≠ 0 then v else cpu.regs x } := by
  have h : (cpuWriteReg cpu r v).regs = fun x => if x = r ∧ r ≠ 0 then v else cpu.regs x :=
    funext fun x => write_reg_regs cpu r x v
  rw [← h]
  unfold cpuWriteReg
  split <;> rfl

/-- Two writes of a register leave the same unless it is not `x0` and the values
differ. -/
theorem write_reg_regs_inj {cpu : Cpu} {r : BitVec 5} {v v' : BitVec 64} :
    (cpuWriteReg cpu r v).regs = (cpuWriteReg cpu r v').regs ↔ r = 0 ∨ v = v' := by
  constructor
  · intro h
    by_cases hz : r = 0
    · exact .inl hz
    · have hr := congrFun h r
      rw [write_reg_regs, write_reg_regs, if_pos ⟨rfl, hz⟩, if_pos ⟨rfl, hz⟩] at hr
      exact .inr hr
  · rintro (rfl | rfl)
    · rfl
    · rfl

@[simp] theorem write_reg_csrs (cpu : Cpu) (r : BitVec 5) (v : BitVec 64) :
    (cpuWriteReg cpu r v).csrs = cpu.csrs := by rw [write_reg_eq]

@[simp] theorem write_reg_pc (cpu : Cpu) (r : BitVec 5) (v : BitVec 64) :
    (cpuWriteReg cpu r v).pc = cpu.pc := by rw [write_reg_eq]

@[simp] theorem write_reg_priviledge (cpu : Cpu) (r : BitVec 5) (v : BitVec 64) :
    (cpuWriteReg cpu r v).priviledge = cpu.priviledge := by rw [write_reg_eq]

@[simp] theorem write_reg_reservation (cpu : Cpu) (r : BitVec 5) (v : BitVec 64) :
    (cpuWriteReg cpu r v).reservation = cpu.reservation := by rw [write_reg_eq]

@[simp] theorem write_reg_trap_taken (cpu : Cpu) (r : BitVec 5) (v : BitVec 64) :
    (cpuWriteReg cpu r v).trapTaken = cpu.trapTaken := by rw [write_reg_eq]

@[simp] theorem write_reg_pc_written (cpu : Cpu) (r : BitVec 5) (v : BitVec 64) :
    (cpuWriteReg cpu r v).pcWritten = cpu.pcWritten := by rw [write_reg_eq]

/-- Whether a store of `size` bytes makes the reservation invalid. -/
def Hits (cpu : Cpu) (p : BitVec 64) (size : BitVec 8) : Prop :=
  cpu.reservation.valid = true ∧
    p < cpu.reservation.physAddr + cpu.reservation.size.setWidth 64 ∧
    p + size.setWidth 64 > cpu.reservation.physAddr

instance (cpu : Cpu) (p : BitVec 64) (size : BitVec 8) : Decidable (Hits cpu p size) :=
  inferInstanceAs (Decidable (_ ∧ _ ∧ _))

theorem invalidate_eq (cpu : Cpu) (p : BitVec 64) (size : BitVec 8) :
    cpuInvalidateReservation cpu p size =
      { cpu with reservation :=
        { cpu.reservation with valid := cpu.reservation.valid && !decide (Hits cpu p size) } } := by
  unfold cpuInvalidateReservation Hits
  by_cases hv : cpu.reservation.valid = true
  · simp only [hv, Bool.not_true, Bool.false_eq_true, ↓reduceIte, true_and, Bool.true_and]
    split
    · rename_i h
      simp [h]
    · rename_i h
      have ht : cpu.reservation = { cpu.reservation with valid := true } := by
        cases hc : cpu.reservation
        simp_all
      simp [h, ← ht]
  · have hf : cpu.reservation.valid = false := by simpa using hv
    have ht : cpu.reservation = { cpu.reservation with valid := false } := by
      cases hc : cpu.reservation
      simp_all
    simp [hf, ← ht]

/-- The store at `p` and the reservation have a byte in common. -/
def Overlaps (r : Reservation) (p : BitVec 64) (n : Nat) : Prop :=
  p.toNat < r.physAddr.toNat + r.size.toNat ∧ r.physAddr.toNat < p.toNat + n

instance (r : Reservation) (p : BitVec 64) (n : Nat) : Decidable (Overlaps r p n) :=
  inferInstanceAs (Decidable (_ ∧ _))

/-- The sums in `cpu_invalidate_reservation` may wrap, but not so that RAM is
concerned. -/
theorem hits_iff {cpu : Cpu} (hv : cpu.reservation.valid = true) {p : BitVec 64} {n : Nat}
    (hn : n ≤ 8) (hram : InRam p 0 ∨ InRam cpu.reservation.physAddr 0) :
    Hits cpu p (BitVec.ofNat 8 n) ↔ Overlaps cpu.reservation p n := by
  have hb : memBase.toNat = 2147483648 := rfl
  have hs : memSize.toNat = 67108864 := rfl
  have hp := p.isLt
  have hr := cpu.reservation.physAddr.isLt
  have hz := cpu.reservation.size.isLt
  unfold InRam at hram
  unfold Hits Overlaps
  rw [gt_iff_lt, BitVec.lt_def, BitVec.lt_def, BitVec.toNat_add, BitVec.toNat_add,
    BitVec.toNat_setWidth, BitVec.toNat_setWidth, BitVec.toNat_ofNat]
  constructor
  · rintro ⟨_, hlow, hhigh⟩
    omega
  · rintro ⟨hlow, hhigh⟩
    refine ⟨hv, ?_, ?_⟩ <;> omega

/-- A store makes exactly the reservations it overlaps invalid, where it or the
reservation is in RAM. -/
theorem invalidate_overlaps (cpu : Cpu) {p : BitVec 64} {n : Nat} (hn : n ≤ 8)
    (hram : InRam p 0 ∨ InRam cpu.reservation.physAddr 0) :
    (cpuInvalidateReservation cpu p (BitVec.ofNat 8 n)).reservation =
      { cpu.reservation with
        valid := cpu.reservation.valid && !decide (Overlaps cpu.reservation p n) } := by
  rw [invalidate_eq]
  cases hv : cpu.reservation.valid with
  | false => rfl
  | true => rw [decide_eq_decide.mpr (hits_iff hv hn hram)]

@[simp] theorem invalidate_regs (cpu : Cpu) (p : BitVec 64) (size : BitVec 8) :
    (cpuInvalidateReservation cpu p size).regs = cpu.regs := by rw [invalidate_eq]

@[simp] theorem invalidate_csrs (cpu : Cpu) (p : BitVec 64) (size : BitVec 8) :
    (cpuInvalidateReservation cpu p size).csrs = cpu.csrs := by rw [invalidate_eq]

@[simp] theorem invalidate_pc (cpu : Cpu) (p : BitVec 64) (size : BitVec 8) :
    (cpuInvalidateReservation cpu p size).pc = cpu.pc := by rw [invalidate_eq]

@[simp] theorem invalidate_priviledge (cpu : Cpu) (p : BitVec 64) (size : BitVec 8) :
    (cpuInvalidateReservation cpu p size).priviledge = cpu.priviledge := by rw [invalidate_eq]

@[simp] theorem invalidate_trap_taken (cpu : Cpu) (p : BitVec 64) (size : BitVec 8) :
    (cpuInvalidateReservation cpu p size).trapTaken = cpu.trapTaken := by rw [invalidate_eq]

@[simp] theorem invalidate_pc_written (cpu : Cpu) (p : BitVec 64) (size : BitVec 8) :
    (cpuInvalidateReservation cpu p size).pcWritten = cpu.pcWritten := by rw [invalidate_eq]

/-- `set_bit` sets its bit and no other. -/
theorem set_bit_get (v : BitVec 64) {n : Nat} (hn : n < 64) (b : Bool) (i : Nat) :
    (setBit v n b).getLsbD i = if i = n then b else v.getLsbD i := by
  unfold setBit
  by_cases hi : i = n
  · subst hi
    cases b <;>
      simp only [↓reduceIte, Bool.false_eq_true, BitVec.getLsbD_and, BitVec.getLsbD_or,
        BitVec.getLsbD_not, Bits.getLsbD_one_shift i i hn, decide_true, Bool.not_true,
        Bool.and_false, Bool.or_true]
  · by_cases hw : i < 64
    · cases b <;>
        simp only [↓reduceIte, Bool.false_eq_true, BitVec.getLsbD_and, BitVec.getLsbD_or,
          BitVec.getLsbD_not, Bits.getLsbD_one_shift n i hn, hi, hw, decide_true, decide_false,
          Bool.not_false, Bool.and_true, Bool.or_false]
    · have hz : v.getLsbD i = false := BitVec.getLsbD_of_ge _ _ (by omega)
      cases b <;>
        simp only [↓reduceIte, Bool.false_eq_true, BitVec.getLsbD_and, BitVec.getLsbD_or,
          Bits.getLsbD_one_shift n i hn, hi, hz, decide_false, Bool.false_and, Bool.or_false]

@[simp] theorem on_cpu_cpu (vm : Vm) (f : Cpu → Cpu) : (vm.onCpu f).cpu = f vm.cpu := rfl

@[simp] theorem on_cpu_bus (vm : Vm) (f : Cpu → Cpu) : (vm.onCpu f).bus = vm.bus := rfl

@[simp] theorem raise_exception_cpu (vm : Vm) (cause tvalue : BitVec 64) :
    (vm.raiseException cause tvalue).cpu = raiseException vm.cpu cause tvalue := rfl

end RiscvVm.Proofs
