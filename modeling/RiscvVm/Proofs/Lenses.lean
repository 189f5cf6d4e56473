import RiscvVm.Proofs.Views

namespace RiscvVm.Proofs
open Bits

/-- A CSR through which the supervisor sees part of a machine register: the
bits of a mask, and the field that a read adds to them. -/
structure View where
  addr : BitVec 12
  machine : BitVec 12
  mask : Cpu → BitVec 64
  added : BitVec 64

def delegatedMask (cpu : Cpu) : BitVec 64 := supervisorInterruptMask &&& cpu.csrs csrMideleg

/-- UXL is 2, and mstatus does not hold it. -/
def sstatusView : View := ⟨csrSstatus, csrMstatus, fun _ => sstatusWriteMask, 2#64 <<< 32⟩

def sieView : View := ⟨csrSie, csrMie, delegatedMask, 0⟩

def sipView : View := ⟨csrSip, csrMip, delegatedMask, 0⟩

def supervisorViews : List View := [sstatusView, sieView, sipView]

theorem set_csr_twice (cpu : Cpu) (a : BitVec 12) (v w : BitVec 64) :
    (cpu.setCsr a v).setCsr a w = cpu.setCsr a w := by
  have hcsrs : ((cpu.setCsr a v).setCsr a w).csrs = (cpu.setCsr a w).csrs := by
    funext b
    simp only [set_csr_csrs]
    split <;> rfl
  exact congrArg (fun csrs => { cpu with csrs := csrs }) hcsrs

theorem set_csr_comm (cpu : Cpu) {a b : BitVec 12} (hab : a ≠ b) (v w : BitVec 64) :
    (cpu.setCsr a v).setCsr b w = (cpu.setCsr b w).setCsr a v := by
  have hcsrs : ((cpu.setCsr a v).setCsr b w).csrs = ((cpu.setCsr b w).setCsr a v).csrs := by
    funext c
    simp only [set_csr_csrs]
    by_cases ha : c = a
    · rw [if_pos ha, if_neg fun hb => hab (ha.symm.trans hb), if_pos ha]
    · rw [if_neg ha, if_neg ha]
  exact congrArg (fun csrs => { cpu with csrs := csrs }) hcsrs

/-- The CSRs whose reads go through a handler. -/
def readHandlers : List (BitVec 12 × (Vm → BitVec 64)) :=
  [(csrSstatus, sstatusRead), (csrSepc, sepcRead), (csrSie, sieRead), (csrSip, sipRead),
   (csrTime, timeRead), (csrInstret, instretRead), (csrCycle, cycleRead)]

theorem table_read {addr : BitVec 12} {f : Vm → BitVec 64}
    (himp : (csrTable addr).implemented = true) (h : (csrTable addr).read = some f) :
    (addr, f) ∈ readHandlers := by
  have hall : ∀ entry ∈ csrLoad, ∀ f, entry.2.read = some f → (entry.1, f) ∈ readHandlers := by
    simp [csrLoad, mcsrLoadTable, scsrLoadTable, ucsrLoadTable, readHandlers]
  exact hall _ (table_mem himp) f h

/-- The registers that a read looks at under other names, for its value or its
permission. -/
def shown : List (BitVec 12 × BitVec 12) :=
  [(csrSstatus, csrMstatus), (csrSie, csrMie), (csrSie, csrMideleg), (csrSip, csrMip),
   (csrSip, csrMideleg), (csrCycle, csrMcycle), (csrCycle, csrMcounteren),
   (csrCycle, csrScounteren), (csrInstret, csrMinstret), (csrInstret, csrMcounteren),
   (csrInstret, csrScounteren), (csrTime, csrMcounteren), (csrTime, csrScounteren)]

theorem can_read_congr {vm vm' : Vm} {addr : BitVec 12}
    (hp : vm'.cpu.priviledge = vm.cpu.priviledge)
    (h : ∀ a, (addr, a) ∈ shown → vm'.cpu.csrs a = vm.cpu.csrs a) :
    csrCanRead vm'.cpu addr vm'.cpu.priviledge = csrCanRead vm.cpu addr vm.cpu.priviledge := by
  unfold csrCanRead
  rw [hp]
  by_cases hcounter : addr = csrCycle ∨ addr = csrTime ∨ addr = csrInstret
  · have hm : (addr, csrMcounteren) ∈ shown ∧ (addr, csrScounteren) ∈ shown := by
      rcases hcounter with rfl | rfl | rfl <;> decide
    rw [h _ hm.1, h _ hm.2]
  · simp only [if_neg hcounter]

/-- What a read returns depends on the CSR, the registers shown through it and
the privilege, and for time on the bus. -/
theorem csr_read_congr {vm vm' : Vm} {addr : BitVec 12}
    (hp : vm'.cpu.priviledge = vm.cpu.priviledge) (hbus : addr = csrTime → vm'.bus = vm.bus)
    (hself : vm'.cpu.csrs addr = vm.cpu.csrs addr)
    (h : ∀ a, (addr, a) ∈ shown → vm'.cpu.csrs a = vm.cpu.csrs a) :
    csrRead vm' addr = csrRead vm addr := by
  unfold csrRead
  dsimp only
  rw [can_read_congr hp h]
  cases himp : (csrTable addr).implemented with
  | false => rfl
  | true =>
    congr 1
    congr 1
    cases hr : (csrTable addr).read with
    | none => exact congrArg some hself
    | some f =>
      have hf := table_read himp hr
      simp only [readHandlers, List.mem_cons, List.not_mem_nil, or_false, Prod.mk.injEq] at hf
      rcases hf with ⟨rfl, rfl⟩ | ⟨rfl, rfl⟩ | ⟨rfl, rfl⟩ | ⟨rfl, rfl⟩ | ⟨rfl, rfl⟩ | ⟨rfl, rfl⟩ |
        ⟨rfl, rfl⟩
      · simp only [sstatusRead, h csrMstatus (by decide)]
      · simp only [sepcRead, hself]
      · simp only [sieRead, h csrMie (by decide), h csrMideleg (by decide)]
      · simp only [sipRead, h csrMip (by decide), h csrMideleg (by decide)]
      · simp only [timeRead, hbus rfl]
      · exact congrArg some (h csrMinstret (by decide))
      · exact congrArg some (h csrMcycle (by decide))

/-- A CSR with a read handler is read through it, if at all. -/
theorem handler_read (vm : Vm) {addr : BitVec 12} {f : Vm → BitVec 64}
    (himp : (csrTable addr).implemented = true) (hr : (csrTable addr).read = some f) :
    csrRead vm addr =
      if csrCanRead vm.cpu addr vm.cpu.priviledge then some (f vm) else none := by
  unfold csrRead
  dsimp only
  rw [himp, hr]
  cases csrCanRead vm.cpu addr vm.cpu.priviledge <;> rfl

theorem delegated_read (cpu : Cpu) (x : BitVec 64) :
    x &&& cpu.csrs csrMideleg &&& supervisorInterruptMask = (x &&& delegatedMask cpu) ||| 0#64 := by
  rw [BitVec.or_zero, delegatedMask, BitVec.and_assoc, BitVec.and_comm (cpu.csrs csrMideleg)]

section
variable {view : View} (hview : view ∈ supervisorViews)
include hview

theorem view_write {cpu : Cpu} (hp : sMode ≤ cpu.priviledge) (value : BitVec 64) :
    csrWrite cpu view.addr value =
      some (cpu.setCsr view.machine
        (blend (view.mask cpu) (cpu.csrs view.machine) value)) := by
  have hcan : csrCanWrite view.addr cpu.priviledge = true := by
    rw [view_can_write cpu (List.mem_map_of_mem hview)]
    exact decide_eq_true hp
  simp only [supervisorViews, List.mem_cons, List.not_mem_nil, or_false] at hview
  rcases hview with rfl | rfl | rfl
  · exact (handler_write cpu value (f := sstatusWrite) rfl rfl).trans (if_pos hcan)
  · exact (handler_write cpu value (f := sieWrite) rfl rfl).trans (if_pos hcan)
  · exact (handler_write cpu value (f := sipWrite) rfl rfl).trans (if_pos hcan)

theorem view_can_read {cpu : Cpu} (hp : sMode ≤ cpu.priviledge) :
    csrCanRead cpu view.addr cpu.priviledge = true := by
  have hlevel := (view_level (List.mem_map_of_mem (f := View.addr) hview)).2
  have hcounter : ¬ (view.addr = csrCycle ∨ view.addr = csrTime ∨ view.addr = csrInstret) := by
    simp only [supervisorViews, List.mem_cons, List.not_mem_nil, or_false] at hview
    rcases hview with rfl | rfl | rfl <;> decide
  rw [csrCanRead, hlevel, if_neg (BitVec.not_lt.mpr hp), if_neg hcounter]

theorem view_read {vm : Vm} (hp : sMode ≤ vm.cpu.priviledge) :
    csrRead vm view.addr =
      some ((vm.cpu.csrs view.machine &&& view.mask vm.cpu) ||| view.added) := by
  have hcan := view_can_read hview hp
  simp only [supervisorViews, List.mem_cons, List.not_mem_nil, or_false] at hview
  rcases hview with rfl | rfl | rfl
  · exact (handler_read vm (f := sstatusRead) rfl rfl).trans (if_pos hcan)
  · refine ((handler_read vm (f := sieRead) rfl rfl).trans (if_pos hcan)).trans ?_
    exact congrArg some (delegated_read vm.cpu (vm.cpu.csrs csrMie))
  · refine ((handler_read vm (f := sipRead) rfl rfl).trans (if_pos hcan)).trans ?_
    exact congrArg some (delegated_read vm.cpu (vm.cpu.csrs csrMip))

/-- The masks depend on what is delegated, which no view writes. -/
theorem view_mask_kept {other : View} (hother : other ∈ supervisorViews) (cpu : Cpu)
    (value : BitVec 64) : view.mask (cpu.setCsr other.machine value) = view.mask cpu := by
  simp only [supervisorViews, List.mem_cons, List.not_mem_nil, or_false] at hview hother
  rcases hview with rfl | rfl | rfl <;> rcases hother with rfl | rfl | rfl <;> rfl

theorem view_read_after {vm : Vm} (hp : sMode ≤ vm.cpu.priviledge) (x : BitVec 64) :
    csrRead { vm with cpu := vm.cpu.setCsr view.machine x } view.addr =
      some ((x &&& view.mask vm.cpu) ||| view.added) := by
  have hr := @view_read view hview { vm with cpu := vm.cpu.setCsr view.machine x } hp
  rwa [view_mask_kept hview hview, set_csr_csrs, if_pos rfl] at hr

theorem view_write_after {other : View} (hother : other ∈ supervisorViews) {cpu : Cpu}
    (hp : sMode ≤ cpu.priviledge) (x value : BitVec 64) :
    csrWrite (cpu.setCsr other.machine x) view.addr value =
      some ((cpu.setCsr other.machine x).setCsr view.machine
        (blend (view.mask cpu) ((cpu.setCsr other.machine x).csrs view.machine) value)) := by
  have hw := @view_write view hview (cpu.setCsr other.machine x) hp value
  rwa [view_mask_kept hview hother] at hw

/-- The field a read adds is outside the mask. -/
theorem view_added_off (cpu : Cpu) (x : BitVec 64) :
    ((x &&& view.mask cpu) ||| view.added) &&& view.mask cpu = x &&& view.mask cpu := by
  have hoff : view.added &&& view.mask cpu = 0 := by
    simp only [supervisorViews, List.mem_cons, List.not_mem_nil, or_false] at hview
    rcases hview with rfl | rfl | rfl
    · have hfields : (2#64 <<< 32) &&& sstatusWriteMask = 0 := by decide
      exact hfields
    · exact BitVec.zero_and
    · exact BitVec.zero_and
  rw [BitVec.and_or_distrib_right, hoff, BitVec.and_assoc, BitVec.and_self]
  exact BitVec.or_zero

/-- No CSR but the view itself shows the register behind it. -/
theorem view_only {a : BitVec 12} (h : (a, view.machine) ∈ shown) : a = view.addr := by
  have hall : (supervisorViews.all fun view => shown.all fun entry =>
      entry.2 != view.machine || entry.1 == view.addr) = true := by decide
  have hentry := List.all_eq_true.mp (List.all_eq_true.mp hall view hview) _ h
  simpa using hentry

end

/-- What a write of a value through a view comes to. -/
structure Wrote (vm : Vm) (view : View) (value : BitVec 64) (cpu' : Cpu) : Prop where
  read_back : csrRead { vm with cpu := cpu' } view.addr =
    some ((value &&& view.mask vm.cpu) ||| view.added)
  last_wins : ∀ next, csrWrite cpu' view.addr next = csrWrite vm.cpu view.addr next
  within : EqOff (view.mask vm.cpu) (cpu'.csrs view.machine) (vm.cpu.csrs view.machine)
  others : ∀ a, a ≠ view.machine → cpu'.csrs a = vm.cpu.csrs a
  reads : ∀ a, a ≠ view.addr → a ≠ view.machine →
    csrRead { vm with cpu := cpu' } a = csrRead vm a
  rest : cpu' = { vm.cpu with csrs := cpu'.csrs }

theorem view_wrote {vm : Vm} {view : View} (hview : view ∈ supervisorViews)
    (hp : sMode ≤ vm.cpu.priviledge) (value : BitVec 64) :
    ∃ cpu', csrWrite vm.cpu view.addr value = some cpu' ∧ Wrote vm view value cpu' := by
  refine ⟨_, view_write hview hp value, ?_, ?_, ?_, ?_, ?_, rfl⟩
  · rw [view_read_after hview hp]
    exact congrArg (fun x => some (x ||| view.added)) (blend_and_mask _ _ _)
  · intro next
    rw [view_write_after hview hview hp, view_write hview hp, set_csr_twice, set_csr_csrs,
      if_pos rfl]
    exact congrArg (fun x => some (vm.cpu.setCsr view.machine x)) (blend_blend _ _ _ _)
  · rw [set_csr_csrs, if_pos rfl]
    exact eqOff_blend _ _ _
  · intro a ha
    exact if_neg ha
  · intro a haddr hmachine
    refine csr_read_congr rfl (fun _ => rfl) (if_neg hmachine) fun b hb => if_neg ?_
    rintro rfl
    exact haddr (view_only hview hb)

theorem view_write_back {vm : Vm} {view : View} (hview : view ∈ supervisorViews)
    (hp : sMode ≤ vm.cpu.priviledge) :
    ∃ old, csrRead vm view.addr = some old ∧ csrWrite vm.cpu view.addr old = some vm.cpu := by
  refine ⟨_, view_read hview hp, ?_⟩
  rw [view_write hview hp, blend, blend_of_and_eq (view_added_off hview vm.cpu _), set_csr_self]

theorem view_writes_comm {cpu : Cpu} {view other : View} (hview : view ∈ supervisorViews)
    (hother : other ∈ supervisorViews) (hne : view.addr ≠ other.addr)
    (hp : sMode ≤ cpu.priviledge) (v w : BitVec 64) :
    (csrWrite cpu view.addr v).bind (csrWrite · other.addr w) =
      (csrWrite cpu other.addr w).bind (csrWrite · view.addr v) := by
  have hmachine : view.machine ≠ other.machine := by
    simp only [supervisorViews, List.mem_cons, List.not_mem_nil, or_false] at hview hother
    rcases hview with rfl | rfl | rfl <;> rcases hother with rfl | rfl | rfl <;>
      first | exact absurd rfl hne | decide
  rw [view_write hview hp, view_write hother hp, Option.bind_some, Option.bind_some,
    view_write_after hother hview hp, view_write_after hview hother hp, set_csr_csrs, if_neg hmachine.symm, set_csr_csrs,
    if_neg hmachine, set_csr_comm cpu hmachine]

/-- In S and in M the views are lenses on the registers behind them: a write
reads back as far as the mask shows it, writing back what was read changes
nothing, the last write through a view counts, nothing else is written, and
writes through different views commute. -/
theorem supervisor_views_lenses (vm : Vm)
    (hp : vm.cpu.priviledge = sMode ∨ vm.cpu.priviledge = mMode) (v w : BitVec 64) :
    (∀ view ∈ supervisorViews,
      (∃ cpu', csrWrite vm.cpu view.addr v = some cpu' ∧ Wrote vm view v cpu') ∧
      ∃ old, csrRead vm view.addr = some old ∧ csrWrite vm.cpu view.addr old = some vm.cpu) ∧
    ∀ view ∈ supervisorViews, ∀ other ∈ supervisorViews, view.addr ≠ other.addr →
      (csrWrite vm.cpu view.addr v).bind (csrWrite · other.addr w) =
        (csrWrite vm.cpu other.addr w).bind (csrWrite · view.addr v) := by
  have hlevel : sMode ≤ vm.cpu.priviledge := by
    rcases hp with h | h <;> rw [h] <;> decide
  constructor
  · intro view hview
    exact ⟨view_wrote hview hlevel v, view_write_back hview hlevel⟩
  · intro view hview other hother hne
    exact view_writes_comm hview hother hne hlevel v w

/-- A start that has written mstatus sets SIE through the view, or saves sstatus
and restores it. -/
theorem sstatus_saved_startup :
    (∃ cpu', csrWrite (quietly 3 (vmInit startup)).cpu csrSstatus 2 = some cpu' ∧
        Wrote (quietly 3 (vmInit startup)) sstatusView 2 cpu') ∧
      ∃ old, csrRead (quietly 3 (vmInit startup)) csrSstatus = some old ∧
        csrWrite (quietly 3 (vmInit startup)).cpu csrSstatus old =
          some (quietly 3 (vmInit startup)).cpu :=
  (supervisor_views_lenses (quietly 3 (vmInit startup)) (.inr (by decide +kernel)) 2 0).1
    sstatusView (.head _)

end RiscvVm.Proofs
