import RiscvVm.Proofs.Invariant

namespace RiscvVm.Proofs
open Bits

/-- The state after a write to a view, which is the state before if the write is
refused, is also the state after a write in M to the machine register. -/
def Dominated (cpu : Cpu) (view machine : BitVec 12) (value : BitVec 64) : Prop :=
  ∃ w cpu', csrWrite { cpu with priviledge := mMode } machine w = some cpu' ∧
    (csrWrite cpu view value).getD cpu = { cpu' with priviledge := cpu.priviledge }

/-- A write to sie that is accepted keeps LCOFI, which mie cannot be written
with, unless LCOFI is not delegated. -/
def SieWithin (cpu : Cpu) (value : BitVec 64) : Prop :=
  sMode ≤ cpu.priviledge → (cpu.csrs csrMideleg).getLsbD 13 = true →
    value.getLsbD 13 = (cpu.csrs csrMie).getLsbD 13

/-- The same of sip, with SEI and LCOFI. -/
def SipWithin (cpu : Cpu) (value : BitVec 64) : Prop :=
  sMode ≤ cpu.priviledge → ∀ i ∈ [9, 13], (cpu.csrs csrMideleg).getLsbD i = true →
    value.getLsbD i = (cpu.csrs csrMip).getLsbD i

def mipWriteMask : BitVec 64 := (1#64 <<< 1) ||| (1#64 <<< 5)

section
variable (cpu : Cpu) (value : BitVec 64)

/-- The views can be written, and belong to the supervisor. -/
theorem view_level {view : BitVec 12} (h : view ∈ [csrSstatus, csrSie, csrSip]) :
    (view >>> 10) &&& 0x03 ≠ csrReadOnly ∧ ((view >>> 8) &&& 0x03).setWidth 8 = sMode := by
  have hlevel : [csrSstatus, csrSie, csrSip].all (fun a =>
      (a >>> 10) &&& 0x03 != csrReadOnly && (((a >>> 8) &&& 0x03).setWidth 8 == sMode)) = true := by
    decide
  have hview := List.all_eq_true.mp hlevel view h
  simpa only [Bool.and_eq_true, bne_iff_ne, beq_iff_eq] using hview

theorem view_can_write {view : BitVec 12} (h : view ∈ [csrSstatus, csrSie, csrSip]) :
    csrCanWrite view cpu.priviledge = decide (sMode ≤ cpu.priviledge) := by
  obtain ⟨hwritable, hlevel⟩ := view_level h
  rw [csrCanWrite, if_neg hwritable, hlevel]
  by_cases hp : sMode ≤ cpu.priviledge
  · rw [if_neg (BitVec.not_lt.mpr hp), decide_eq_true hp]
  · rw [if_pos (BitVec.not_le.mp hp), decide_eq_false hp]

theorem set_csr_inj {a : BitVec 12} {x y : BitVec 64} :
    cpu.setCsr a x = cpu.setCsr a y ↔ x = y := by
  constructor
  · intro h
    have hx := congrFun (congrArg Cpu.csrs h) a
    simpa using hx
  · intro h
    rw [h]

theorem set_csr_self (a : BitVec 12) : cpu.setCsr a (cpu.csrs a) = cpu := by
  have hcsrs : (cpu.setCsr a (cpu.csrs a)).csrs = cpu.csrs := by
    funext b
    rw [set_csr_csrs]
    split
    · rename_i hb
      rw [hb]
    · rfl
  exact congrArg (fun csrs => { cpu with csrs := csrs }) hcsrs

/-- A view that writes its machine register through a mask is dominated when it
stays within the mask of that register. -/
theorem dominated_iff {view machine : BitVec 12} {mask outer : BitVec 64}
    (hmem : view ∈ [csrSstatus, csrSie, csrSip])
    (hview : csrWrite cpu view value =
      if csrCanWrite view cpu.priviledge then
        some (cpu.setCsr machine (blend mask (cpu.csrs machine) value)) else none)
    (hmachine : ∀ w, csrWrite { cpu with priviledge := mMode } machine w =
      some { cpu.setCsr machine (blend outer (cpu.csrs machine) w) with priviledge := mMode }) :
    Dominated cpu view machine value ↔
      (sMode ≤ cpu.priviledge → ∀ i < 64, outer.getLsbD i = false → mask.getLsbD i = true →
        value.getLsbD i = (cpu.csrs machine).getLsbD i) := by
  have hdom : Dominated cpu view machine value ↔ ∃ w, (csrWrite cpu view value).getD cpu =
      cpu.setCsr machine (blend outer (cpu.csrs machine) w) := by
    constructor
    · rintro ⟨w, cpu', hw, he⟩
      rw [hmachine w] at hw
      cases hw
      exact ⟨w, he⟩
    · rintro ⟨w, he⟩
      exact ⟨w, _, hmachine w, he⟩
  rw [hdom, hview, view_can_write cpu hmem]
  by_cases hp : sMode ≤ cpu.priviledge
  · simp only [hp, decide_true, if_true, Option.getD_some, true_imp_iff, set_csr_inj]
    rw [← blend_within_iff, ← exists_blend_iff]
    exact exists_congr fun w => eq_comm
  · simp only [hp, decide_false, Bool.false_eq_true, if_false, Option.getD_none, false_imp_iff,
      iff_true]
    obtain ⟨w, hw⟩ := exists_blend_iff.mpr (EqOff.refl outer (cpu.csrs machine))
    exact ⟨w, by rw [blend, hw, set_csr_self]⟩

/-- A CSR with a write handler is written through it, if at all. -/
theorem handler_write {addr : BitVec 12} {f : Cpu → BitVec 64 → Cpu}
    (himp : (csrTable addr).implemented = true) (hw : (csrTable addr).write = some f) :
    csrWrite cpu addr value =
      if csrCanWrite addr cpu.priviledge then some (f cpu value) else none := by
  unfold csrWrite
  dsimp only
  rw [himp, hw]
  cases csrCanWrite addr cpu.priviledge <;> rfl

theorem supervisor_mask_get (i : Nat) :
    supervisorInterruptMask.getLsbD i = decide (i ∈ [1, 5, 9, 13]) := by
  simp (disch := decide) only [supervisorInterruptMask, BitVec.getLsbD_or, getLsbD_one_shift]
  simp [Bool.or_assoc]

/-- The delegated interrupts of the supervisor that a mask lacks. -/
theorem view_bits_iff {outer deleg v x : BitVec 64} :
    (∀ i < 64, outer.getLsbD i = false → (supervisorInterruptMask &&& deleg).getLsbD i = true →
      v.getLsbD i = x.getLsbD i) ↔
    ∀ i ∈ [1, 5, 9, 13].filter fun i => !outer.getLsbD i,
      deleg.getLsbD i = true → v.getLsbD i = x.getLsbD i := by
  constructor
  · intro h i hi hd
    obtain ⟨hmem, hout⟩ := List.mem_filter.mp hi
    have hlt : i < 64 := by
      simp only [List.mem_cons, List.not_mem_nil, or_false] at hmem
      omega
    refine h i hlt (by simpa using hout) ?_
    rw [BitVec.getLsbD_and, supervisor_mask_get, decide_eq_true hmem, hd]
    rfl
  · intro h i hi hout hin
    rw [BitVec.getLsbD_and, supervisor_mask_get, Bool.and_eq_true, decide_eq_true_eq] at hin
    exact h i (List.mem_filter.mpr ⟨hin.1, by simp [hout]⟩) hin.2

theorem beyond_mie : ([1, 5, 9, 13].filter fun i => !mieWriteMask.getLsbD i) = [13] := by decide

theorem beyond_mip : ([1, 5, 9, 13].filter fun i => !mipWriteMask.getLsbD i) = [9, 13] := by
  decide

/-- All that sstatus can write, mstatus can. -/
theorem sstatus_dominated : Dominated cpu csrSstatus csrMstatus value := by
  have hview : csrWrite cpu csrSstatus value = if csrCanWrite csrSstatus cpu.priviledge then
      some (cpu.setCsr csrMstatus (blend sstatusWriteMask (cpu.csrs csrMstatus) value)) else none :=
    handler_write cpu value (f := sstatusWrite) rfl rfl
  refine (dominated_iff cpu value (by decide) hview fun _ => rfl).mpr fun _ i hi hout hin => ?_
  have hsub : sstatusWriteMask &&& mstatusWriteMask = sstatusWriteMask := by decide
  rw [← hsub, BitVec.getLsbD_and, Bool.and_eq_true] at hin
  have hno : mstatusWriteMask.getLsbD i = false := hout
  rw [hin.2] at hno
  cases hno

theorem sie_dominated_iff : Dominated cpu csrSie csrMie value ↔ SieWithin cpu value := by
  have hview : csrWrite cpu csrSie value = if csrCanWrite csrSie cpu.priviledge then
      some (cpu.setCsr csrMie (blend (supervisorInterruptMask &&& cpu.csrs csrMideleg)
        (cpu.csrs csrMie) value)) else none :=
    handler_write cpu value (f := sieWrite) rfl rfl
  rw [dominated_iff cpu value (by decide) hview fun _ => rfl, SieWithin]
  refine imp_congr_right fun _ => ?_
  have hbits := @view_bits_iff mieWriteMask (cpu.csrs csrMideleg) value (cpu.csrs csrMie)
  rw [beyond_mie] at hbits
  exact hbits.trans (by simp)

theorem sip_dominated_iff : Dominated cpu csrSip csrMip value ↔ SipWithin cpu value := by
  have hview : csrWrite cpu csrSip value = if csrCanWrite csrSip cpu.priviledge then
      some (cpu.setCsr csrMip (blend (supervisorInterruptMask &&& cpu.csrs csrMideleg)
        (cpu.csrs csrMip) value)) else none :=
    handler_write cpu value (f := sipWrite) rfl rfl
  rw [dominated_iff cpu value (by decide) hview fun _ => rfl, SipWithin]
  refine imp_congr_right fun _ => ?_
  have hbits := @view_bits_iff mipWriteMask (cpu.csrs csrMideleg) value (cpu.csrs csrMip)
  rw [beyond_mip] at hbits
  exact hbits

end

/-- The step writes neither view beyond its machine register. -/
def ViewsWithin (vm : Vm) : Prop :=
  (∀ value, WritesCsr vm csrSie value → SieWithin vm.cpu value) ∧
    ∀ value, WritesCsr vm csrSip value → SipWithin vm.cpu value

/-- The interrupt registers with their views. -/
def interruptViews : List (BitVec 12 × BitVec 12) := [(csrMie, csrSie), (csrMip, csrSip)]

section
variable {cpu cpu' : Cpu} {addr reg view : BitVec 12} {value : BitVec 64}

/-- An interrupt register is written under its own name or through its view. -/
theorem Writes.interrupts (h : Writes cpu addr value cpu') (hreg : (reg, view) ∈ interruptViews) :
    cpu'.csrs reg = cpu.csrs reg ∨
    cpu'.csrs reg = blend (csrTable reg).writeMask (cpu.csrs reg) value ∨
    addr = view ∧ cpu'.csrs reg =
      blend (supervisorInterruptMask &&& cpu.csrs csrMideleg) (cpu.csrs reg) value := by
  simp only [interruptViews, List.mem_cons, List.not_mem_nil, or_false, Prod.mk.injEq] at hreg
  cases h with
  | misa h => exact .inl rfl
  | mtvec h => rcases hreg with ⟨rfl, rfl⟩ | ⟨rfl, rfl⟩ <;> exact .inl rfl
  | stvec h => rcases hreg with ⟨rfl, rfl⟩ | ⟨rfl, rfl⟩ <;> exact .inl rfl
  | sstatus h => rcases hreg with ⟨rfl, rfl⟩ | ⟨rfl, rfl⟩ <;> exact .inl rfl
  | sie h =>
    rcases hreg with ⟨rfl, rfl⟩ | ⟨rfl, rfl⟩
    · exact .inr (.inr ⟨h, rfl⟩)
    · exact .inl rfl
  | sip h =>
    rcases hreg with ⟨rfl, rfl⟩ | ⟨rfl, rfl⟩
    · exact .inl rfl
    · exact .inr (.inr ⟨h, rfl⟩)
  | masked himp hw =>
    by_cases ha : reg = addr
    · subst ha
      exact .inr (.inl (if_pos rfl))
    · exact .inl (if_neg ha)

/-- A write keeps to the mask of an interrupt register, if one through the view
keeps the delegated bits that the mask lacks. -/
theorem Writes.within (h : Writes cpu addr value cpu') (hreg : (reg, view) ∈ interruptViews)
    (hview : addr = view → ∀ i ∈ [1, 5, 9, 13].filter fun i => !(csrTable reg).writeMask.getLsbD i,
      (cpu.csrs csrMideleg).getLsbD i = true → value.getLsbD i = (cpu.csrs reg).getLsbD i) :
    EqOff (csrTable reg).writeMask (cpu'.csrs reg) (cpu.csrs reg) := by
  rcases h.interrupts hreg with hsame | hown | ⟨ha, hthrough⟩
  · rw [hsame]
    exact .refl _ _
  · rw [hown]
    exact eqOff_blend _ _ _
  · rw [hthrough]
    exact blend_within_iff.mpr (view_bits_iff.mpr (hview ha))

end

theorem writes_csr_level {vm : Vm} {view : BitVec 12} {value : BitVec 64}
    (h : WritesCsr vm view value) (hview : view ∈ [csrSstatus, csrSie, csrSip]) :
    sMode ≤ vm.cpu.priviledge := by
  obtain ⟨_, _, _, _, hcan⟩ := h
  rw [view_can_write vm.cpu hview] at hcan
  exact of_decide_eq_true hcan

/-- The interrupts enabled are those of the mask of mie. -/
theorem mie_within_run {vm : Vm} (h : GuardedRun ViewsWithin vm) :
    EqOff mieWriteMask (vm.cpu.csrs csrMie) 0 := by
  have hinv : ControlInvariant fun cpu => EqOff mieWriteMask (cpu.csrs csrMie) 0 :=
    slot_invariant (Q := fun v => EqOff mieWriteMask v 0) (by decide)
  refine hinv.run rfl (fun hp _ => ?_) (fun hp hok => ?_) h
  · rw [set_pending_eq]
    exact hp
  · refine slot_kept (Q := fun v => EqOff mieWriteMask v 0) _ (by decide) hp fun hw hdone => ?_
    refine (hdone.within (.head _) ?_).trans hp
    rintro rfl i hi hd
    have hmem : i ∈ [13] := beyond_mie ▸ hi
    obtain rfl := List.mem_singleton.mp hmem
    exact hok.1 _ hw (writes_csr_level hw (by decide)) hd

/-- The bits of mip that its mask has, and those the timer drives. -/
def mipBits : BitVec 64 := mipWriteMask ||| (1#64 <<< 3) ||| (1#64 <<< 7)

theorem mip_bits_get (i : Nat) : mipBits.getLsbD i = decide (i ∈ [1, 5, 3, 7]) := by
  simp (disch := decide) only [mipBits, mipWriteMask, BitVec.getLsbD_or, getLsbD_one_shift]
  simp [Bool.or_assoc]

theorem mip_within_run {vm : Vm} (h : GuardedRun ViewsWithin vm) :
    EqOff mipBits (vm.cpu.csrs csrMip) 0 := by
  have hinv : ControlInvariant fun cpu => EqOff mipBits (cpu.csrs csrMip) 0 :=
    slot_invariant (Q := fun v => EqOff mipBits v 0) (by decide)
  refine hinv.run rfl (fun hp hc => ?_) (fun hp hok => ?_) h
  · rw [set_pending_eq]
    exact (pending_off hc (by decide) (by decide)).trans hp
  · refine slot_kept (Q := fun v => EqOff mipBits v 0) _ (by decide) hp fun hw hdone => ?_
    refine ((hdone.within (.tail _ (.head _)) ?_).mono (by decide)).trans hp
    rintro rfl i hi hd
    exact hok.2 _ hw (writes_csr_level hw (by decide)) i (beyond_mip ▸ hi) hd

theorem mip_set_bits {mip : BitVec 64} (h : EqOff mipBits mip 0) {i : Nat}
    (hi : mip.getLsbD i = true) : i ∈ [1, 5, 3, 7] := by
  have hlt : i < 64 := BitVec.lt_of_getLsbD hi
  cases hm : mipBits.getLsbD i with
  | true =>
    rw [mip_bits_get] at hm
    exact of_decide_eq_true hm
  | false =>
    rw [h.bit hlt hm] at hi
    simp at hi

/-- M clears what the interrupt registers hold, the bits of the timer apart. -/
structure Clearable (cpu : Cpu) : Prop where
  mie : ∃ cpu', csrWrite { cpu with priviledge := mMode } csrMie 0 = some cpu' ∧
    cpu'.csrs csrMie = 0
  mip : ∃ cpu', csrWrite { cpu with priviledge := mMode } csrMip 0 = some cpu' ∧
    ∀ i, (cpu'.csrs csrMip).getLsbD i = true → i ∈ [3, 7]

theorem clearable {cpu : Cpu} (hmie : EqOff mieWriteMask (cpu.csrs csrMie) 0)
    (hmip : EqOff mipBits (cpu.csrs csrMip) 0) : Clearable cpu := by
  refine ⟨⟨_, rfl, ?_⟩, ⟨_, rfl, fun i hi => ?_⟩⟩
  · have hclear : (cpu.csrs csrMie &&& ~~~mieWriteMask) ||| (0 &&& mieWriteMask) = 0 := by
      rw [hmie]
      simp
    exact hclear
  · have hkept : ((cpu.csrs csrMip &&& ~~~mipWriteMask) ||| (0#64 &&& mipWriteMask)).getLsbD i =
        true := hi
    rw [BitVec.zero_and, BitVec.or_zero, BitVec.getLsbD_and, Bool.and_eq_true] at hkept
    obtain ⟨hset, hout⟩ := hkept
    have hmem := mip_set_bits hmip hset
    simp only [List.mem_cons, List.not_mem_nil, or_false] at hmem ⊢
    rcases hmem with rfl | rfl | h3 | h7
    · exact absurd hout (by decide)
    · exact absurd hout (by decide)
    · exact .inl h3
    · exact .inr h7

/-- A write to a view is one that M could have made to the register behind it,
exactly when it keeps the delegated bits that cannot be written there. In a run
whose steps all do, mie and mip hold only what M can clear and what the timer
drives. -/
theorem views_no_more_powerful (cpu : Cpu) (value : BitVec 64) :
    (Dominated cpu csrSstatus csrMstatus value ∧
      (Dominated cpu csrSie csrMie value ↔ SieWithin cpu value) ∧
      (Dominated cpu csrSip csrMip value ↔ SipWithin cpu value)) ∧
    ∀ vm, GuardedRun ViewsWithin vm →
      vm.cpu.csrs csrMie &&& ~~~(csrTable csrMie).writeMask = 0 ∧
      (∀ i, (vm.cpu.csrs csrMip).getLsbD i = true → i ∈ [1, 5, 3, 7]) ∧ Clearable vm.cpu := by
  refine ⟨⟨sstatus_dominated cpu value, sie_dominated_iff cpu value,
    sip_dominated_iff cpu value⟩, fun vm h => ?_⟩
  have hmie := mie_within_run h
  have hmip := mip_within_run h
  exact ⟨hmie, fun i hi => mip_set_bits hmip hi, clearable hmie hmip⟩

/-- `lui x1, 2; csrw mideleg, x1; csrw sie, x1`. -/
def enableLcofi : Memory := ramOf [(0, 0x30309073000020B7), (8, 0x10409073)]

/-- A supervisor to which LCOFI is delegated enables it, which M cannot; and mie
comes to hold it. -/
theorem sie_more_powerful :
    (¬ ∀ (cpu : Cpu) (value : BitVec 64), Dominated cpu csrSstatus csrMstatus value ∧
      Dominated cpu csrSie csrMie value ∧ Dominated cpu csrSip csrMip value) ∧
    ∃ vm, Reachable vm ∧ vm.cpu.csrs csrMie &&& ~~~(csrTable csrMie).writeMask ≠ 0 := by
  constructor
  · intro h
    let cpu : Cpu := { (cpuReset cpuInit memBase).setCsr csrMideleg 0x2000 with priviledge := sMode }
    have hwithin := (sie_dominated_iff cpu 0x2000).mp (h cpu 0x2000).2.1
    exact absurd (hwithin (by decide) (by decide)) (by decide)
  · exact ⟨_, .iterate _ .quiet (.iterate _ .quiet (.iterate _ .quiet (.init enableLcofi))),
      by decide⟩

end RiscvVm.Proofs
