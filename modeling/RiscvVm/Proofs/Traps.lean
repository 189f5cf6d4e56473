import RiscvVm.Proofs.State

namespace RiscvVm.Proofs

/-- The trap entry of `raise_exception` and `raise_interrupt` at S. -/
def trapToS (cpu : Cpu) (cause tvalue : BitVec 64) : Cpu :=
  enterSTrap (((cpu.setCsr csrSepc cpu.pc).setCsr csrScause cause).setCsr csrStval tvalue)

/-- The trap entry of `raise_exception` and `raise_interrupt` at M. -/
def trapToM (cpu : Cpu) (cause tvalue : BitVec 64) : Cpu :=
  enterMTrap (((cpu.setCsr csrMepc cpu.pc).setCsr csrMcause cause).setCsr csrMtval tvalue)

/-- Whether the trap goes to S, by the delegation register it is looked up in. -/
def Delegated (cpu : Cpu) (deleg : BitVec 12) (n : Nat) : Prop :=
  cpu.priviledge < mMode ∧ (cpu.csrs deleg).getLsbD n = true

instance (cpu : Cpu) (deleg : BitVec 12) (n : Nat) : Decidable (Delegated cpu deleg n) :=
  inferInstanceAs (Decidable (_ ∧ _))

theorem raise_exception_eq (cpu : Cpu) {cause : BitVec 64} (hc : cause.toNat < 64)
    (tvalue : BitVec 64) : raiseException cpu cause tvalue =
      if Delegated cpu csrMedeleg cause.toNat then trapToS cpu cause tvalue
      else trapToM cpu cause tvalue := by
  unfold raiseException
  dsimp only
  have hbit := and_congr_right (a := cpu.priviledge < mMode) fun _ =>
    Bits.and_one_shift_ne_zero (cpu.csrs csrMedeleg) hc
  exact ite_congr (propext hbit) (fun _ => rfl) fun _ => rfl

/-- The cause an interrupt records. -/
def interruptCause (cause : Nat) : BitVec 64 := (1#64 <<< 63) ||| BitVec.ofNat 64 cause

theorem raise_interrupt_eq (cpu : Cpu) {cause : Nat} (hc : cause < 64) :
    raiseInterrupt cpu (BitVec.ofNat 64 cause) =
      if Delegated cpu csrMideleg cause then trapToS cpu (interruptCause cause) 0
      else trapToM cpu (interruptCause cause) 0 := by
  have hn : (BitVec.ofNat 64 cause).toNat = cause := by
    rw [BitVec.toNat_ofNat]
    omega
  unfold raiseInterrupt
  dsimp only
  rw [hn]
  have hbit := and_congr_right (a := cpu.priviledge < mMode) fun _ =>
    Bits.and_one_shift_ne_zero (cpu.csrs csrMideleg) hc
  exact ite_congr (propext hbit) (fun _ => rfl) fun _ => rfl

/-- What entering S makes of `mstatus`: SPP, SPIE and SIE. -/
def sTrapStatus (cpu : Cpu) : BitVec 64 :=
  let mstatus := cpu.csrs csrMstatus
  setBit (setBit (setBit mstatus 8 (cpu.priviledge.getLsbD 0)) 5 (mstatus.getLsbD 1)) 1 false

/-- What entering M makes of `mstatus`: MPIE, MIE and MPP. -/
def mTrapStatus (cpu : Cpu) : BitVec 64 :=
  let mstatus := cpu.csrs csrMstatus
  setBit (setBit (setBit (setBit mstatus 7 (mstatus.getLsbD 3)) 3 false) 11
    (cpu.priviledge.getLsbD 0)) 12 (cpu.priviledge.getLsbD 1)

theorem s_trap_status_get (cpu : Cpu) (i : Nat) :
    (sTrapStatus cpu).getLsbD i =
      if i = 1 then false
      else if i = 5 then (cpu.csrs csrMstatus).getLsbD 1
      else if i = 8 then cpu.priviledge.getLsbD 0
      else (cpu.csrs csrMstatus).getLsbD i := by
  simp (disch := omega) only [sTrapStatus, set_bit_get]

theorem m_trap_status_get (cpu : Cpu) (i : Nat) :
    (mTrapStatus cpu).getLsbD i =
      if i = 12 then cpu.priviledge.getLsbD 1
      else if i = 11 then cpu.priviledge.getLsbD 0
      else if i = 3 then false
      else if i = 7 then (cpu.csrs csrMstatus).getLsbD 3
      else (cpu.csrs csrMstatus).getLsbD i := by
  simp (disch := omega) only [mTrapStatus, set_bit_get]

theorem trap_to_s_csrs (cpu : Cpu) (cause tvalue : BitVec 64) (a : BitVec 12) :
    (trapToS cpu cause tvalue).csrs a =
      if a = csrMstatus then sTrapStatus cpu
      else if a = csrStval then tvalue
      else if a = csrScause then cause
      else if a = csrSepc then cpu.pc
      else cpu.csrs a := rfl

theorem trap_to_m_csrs (cpu : Cpu) (cause tvalue : BitVec 64) (a : BitVec 12) :
    (trapToM cpu cause tvalue).csrs a =
      if a = csrMstatus then mTrapStatus cpu
      else if a = csrMtval then tvalue
      else if a = csrMcause then cause
      else if a = csrMepc then cpu.pc
      else cpu.csrs a := rfl

section
variable (cpu : Cpu) (cause tvalue : BitVec 64)

@[simp] theorem trap_to_s_priviledge : (trapToS cpu cause tvalue).priviledge = sMode := rfl
@[simp] theorem trap_to_m_priviledge : (trapToM cpu cause tvalue).priviledge = mMode := rfl
@[simp] theorem trap_to_s_pc :
    (trapToS cpu cause tvalue).pc = cpu.csrs csrStvec &&& ~~~0x3#64 := rfl

end

/-- Either trap entry leaves the registers, the reservation and the counters. -/
structure TrapFrame (cpu cpu' : Cpu) : Prop where
  regs : cpu'.regs = cpu.regs
  reservation : cpu'.reservation = cpu.reservation
  pcWritten : cpu'.pcWritten = cpu.pcWritten
  minstret : cpu'.csrs csrMinstret = cpu.csrs csrMinstret
  mcycle : cpu'.csrs csrMcycle = cpu.csrs csrMcycle

theorem raise_exception_frame (cpu : Cpu) (cause tvalue : BitVec 64) :
    TrapFrame cpu (raiseException cpu cause tvalue) := by
  unfold raiseException
  dsimp only
  split
  · exact ⟨rfl, rfl, rfl, rfl, rfl⟩
  · exact ⟨rfl, rfl, rfl, rfl, rfl⟩

theorem raise_exception_taken (cpu : Cpu) (cause tvalue : BitVec 64) :
    (raiseException cpu cause tvalue).trapTaken = true := by
  unfold raiseException
  dsimp only
  split <;> rfl

theorem raise_interrupt_frame (cpu : Cpu) (cause : BitVec 64) :
    TrapFrame cpu (raiseInterrupt cpu cause) := by
  unfold raiseInterrupt
  dsimp only
  split
  · exact ⟨rfl, rfl, rfl, rfl, rfl⟩
  · exact ⟨rfl, rfl, rfl, rfl, rfl⟩

/-- A cause `cpu_check_interrupts` would enter if it came to it. -/
def takeable (cpu : Cpu) (cause : Nat) : Bool :=
  (cpu.csrs csrMip &&& cpu.csrs csrMie).getLsbD cause &&
    if (cpu.csrs csrMideleg).getLsbD cause then
      cpu.priviledge != mMode &&
        !(cpu.priviledge == sMode && !(cpu.csrs csrMstatus).getLsbD 1)
    else !(cpu.priviledge == mMode && !(cpu.csrs csrMstatus).getLsbD 3)

/-- The interrupt `cpu_check_interrupts` enters. -/
def selected (cpu : Cpu) : Option Nat := priority.find? (takeable cpu)

theorem check_loop_cons (cpu : Cpu) (cause : Nat) (rest : List Nat) :
    checkInterruptsLoop cpu (cpu.csrs csrMstatus) (cpu.csrs csrMideleg)
        (cpu.csrs csrMip &&& cpu.csrs csrMie) (cause :: rest) =
      if takeable cpu cause then raiseInterrupt cpu (BitVec.ofNat 64 cause)
      else checkInterruptsLoop cpu (cpu.csrs csrMstatus) (cpu.csrs csrMideleg)
        (cpu.csrs csrMip &&& cpu.csrs csrMie) rest := by
  rw [checkInterruptsLoop]
  unfold takeable
  cases (cpu.csrs csrMip &&& cpu.csrs csrMie).getLsbD cause with
  | false => rfl
  | true =>
    cases (cpu.csrs csrMideleg).getLsbD cause with
    | false =>
      by_cases hm : cpu.priviledge = mMode <;> cases (cpu.csrs csrMstatus).getLsbD 3 <;> simp [hm]
    | true =>
      by_cases hm : cpu.priviledge = mMode
      · simp [hm]
      · by_cases hs : cpu.priviledge = sMode <;> cases (cpu.csrs csrMstatus).getLsbD 1 <;>
          simp [hm, hs]

theorem check_loop_eq (cpu : Cpu) (causes : List Nat) :
    checkInterruptsLoop cpu (cpu.csrs csrMstatus) (cpu.csrs csrMideleg)
        (cpu.csrs csrMip &&& cpu.csrs csrMie) causes =
      match causes.find? (takeable cpu) with
      | none => cpu
      | some cause => raiseInterrupt cpu (BitVec.ofNat 64 cause) := by
  induction causes with
  | nil => rfl
  | cons cause rest ih =>
    rw [check_loop_cons, ih, List.find?_cons]
    cases takeable cpu cause <;> rfl

theorem check_interrupts_eq (cpu : Cpu) :
    cpuCheckInterrupts cpu =
      match selected cpu with
      | none => cpu
      | some cause => raiseInterrupt cpu (BitVec.ofNat 64 cause) := by
  unfold cpuCheckInterrupts
  dsimp only
  split
  · rename_i h
    have hnone : selected cpu = none := by
      refine List.find?_eq_none.mpr fun cause _ => ?_
      unfold takeable
      rw [h]
      simp
    rw [hnone]
  · exact check_loop_eq cpu priority

theorem selected_mem {cpu : Cpu} {cause : Nat} (h : selected cpu = some cause) :
    cause ∈ priority ∧ takeable cpu cause = true :=
  ⟨List.mem_of_find?_eq_some h, List.find?_some h⟩

theorem selected_lt {cpu : Cpu} {cause : Nat} (h : selected cpu = some cause) : cause < 64 := by
  have hm := (selected_mem h).1
  simp only [priority, List.mem_cons, List.not_mem_nil, or_false] at hm
  omega

theorem check_interrupts_frame (cpu : Cpu) : TrapFrame cpu (cpuCheckInterrupts cpu) := by
  rw [check_interrupts_eq]
  cases selected cpu with
  | none => exact ⟨rfl, rfl, rfl, rfl, rfl⟩
  | some cause => exact raise_interrupt_frame cpu _

/-- After a trap to M nothing can be taken: interrupts are off at M. -/
theorem selected_after_m (cpu : Cpu) (cause tvalue : BitVec 64) :
    selected (trapToM cpu cause tvalue) = none := by
  refine List.find?_eq_none.mpr fun n _ => ?_
  have hmie : ((trapToM cpu cause tvalue).csrs csrMstatus).getLsbD 3 = false := by
    rw [trap_to_m_csrs, if_pos rfl, m_trap_status_get]
    rfl
  unfold takeable
  rw [hmie, trap_to_m_priviledge]
  split <;> simp

/-- After a trap to S only an interrupt of M can be taken. -/
theorem selected_after_s {cpu : Cpu} {cause tvalue : BitVec 64} {n : Nat}
    (h : selected (trapToS cpu cause tvalue) = some n) :
    (cpu.csrs csrMideleg).getLsbD n = false := by
  have ht := (selected_mem h).2
  have hsie : ((trapToS cpu cause tvalue).csrs csrMstatus).getLsbD 1 = false := by
    rw [trap_to_s_csrs, if_pos rfl, s_trap_status_get]
    rfl
  have hdeleg : (trapToS cpu cause tvalue).csrs csrMideleg = cpu.csrs csrMideleg := rfl
  unfold takeable at ht
  rw [hsie, hdeleg, trap_to_s_priviledge] at ht
  cases hd : (cpu.csrs csrMideleg).getLsbD n with
  | false => rfl
  | true =>
    rw [hd] at ht
    simp at ht

/-- An interrupt on top of a trap to S is entered at M. -/
theorem check_after_s {cpu : Cpu} {cause tvalue : BitVec 64} {n : Nat}
    (h : selected (trapToS cpu cause tvalue) = some n) :
    cpuCheckInterrupts (trapToS cpu cause tvalue) =
      trapToM (trapToS cpu cause tvalue) (interruptCause n) 0 := by
  rw [check_interrupts_eq, h]
  dsimp only
  rw [raise_interrupt_eq _ (selected_lt h), if_neg]
  rintro ⟨_, hd⟩
  have hdeleg : (cpu.csrs csrMideleg).getLsbD n = true := hd
  rw [selected_after_s h] at hdeleg
  cases hdeleg

theorem check_after_m (cpu : Cpu) (cause tvalue : BitVec 64) :
    cpuCheckInterrupts (trapToM cpu cause tvalue) = trapToM cpu cause tvalue := by
  rw [check_interrupts_eq, selected_after_m]

end RiscvVm.Proofs
