import RiscvVm.Machine
import RiscvVm.Proofs.Interrupts

namespace RiscvVm.Proofs

/-- The machine runs at one of its three levels. -/
def AtLevel (cpu : Cpu) : Prop :=
  cpu.priviledge = uMode ∨ cpu.priviledge = sMode ∨ cpu.priviledge = mMode

instance (cpu : Cpu) : Decidable (AtLevel cpu) := inferInstanceAs (Decidable (_ ∨ _))

instance (cpu : Cpu) (cause : Nat) : Decidable (Takeable cpu cause) :=
  inferInstanceAs (Decidable (_ ∧ _))

/-- The order interrupts are taken in: external, software and timer, those of M
before those of S. -/
def interruptOrder : List Nat := [11, 3, 7, 9, 1, 5]

/-- The first takeable interrupt of the order. -/
def FirstTakeable (cpu : Cpu) (cause : Nat) : Prop :=
  ∃ before after, interruptOrder = before ++ cause :: after ∧ Takeable cpu cause ∧
    ∀ c ∈ before, ¬ Takeable cpu c

/-- What an interrupt at M leaves: its record, interrupts off at M, and the rest
as it was. -/
structure InterruptedAtM (cpu cpu' : Cpu) (cause : Nat) : Prop where
  priviledge : cpu'.priviledge = mMode
  pc : cpu'.pc = cpu.csrs csrMtvec &&& ~~~0x3#64
  epc : cpu'.csrs csrMepc = cpu.pc
  cause : cpu'.csrs csrMcause = interruptCause cause
  tval : cpu'.csrs csrMtval = 0
  disabled : (cpu'.csrs csrMstatus).getLsbD 3 = false
  others : ∀ a ∉ [csrMepc, csrMcause, csrMtval, csrMstatus], cpu'.csrs a = cpu.csrs a
  status : ∀ i ∉ [3, 7, 11, 12],
    (cpu'.csrs csrMstatus).getLsbD i = (cpu.csrs csrMstatus).getLsbD i
  frame : TrapFrame cpu cpu'

/-- The same at S. -/
structure InterruptedAtS (cpu cpu' : Cpu) (cause : Nat) : Prop where
  priviledge : cpu'.priviledge = sMode
  pc : cpu'.pc = cpu.csrs csrStvec &&& ~~~0x3#64
  epc : cpu'.csrs csrSepc = cpu.pc
  cause : cpu'.csrs csrScause = interruptCause cause
  tval : cpu'.csrs csrStval = 0
  disabled : (cpu'.csrs csrMstatus).getLsbD 1 = false
  others : ∀ a ∉ [csrSepc, csrScause, csrStval, csrMstatus], cpu'.csrs a = cpu.csrs a
  status : ∀ i ∉ [1, 5, 8],
    (cpu'.csrs csrMstatus).getLsbD i = (cpu.csrs csrMstatus).getLsbD i
  frame : TrapFrame cpu cpu'

theorem interrupted_at_m (cpu : Cpu) (cause : Nat) :
    InterruptedAtM cpu (trapToM cpu (interruptCause cause) 0) cause where
  priviledge := rfl
  pc := rfl
  epc := rfl
  cause := rfl
  tval := rfl
  disabled := by
    rw [trap_to_m_csrs, if_pos rfl, m_trap_status_get]
    rfl
  others := by
    intro a ha
    simp only [List.mem_cons, List.not_mem_nil, or_false, not_or] at ha
    obtain ⟨hepc, hcause, htval, hstatus⟩ := ha
    rw [trap_to_m_csrs, if_neg hstatus, if_neg htval, if_neg hcause, if_neg hepc]
  status := by
    intro i hi
    simp only [List.mem_cons, List.not_mem_nil, or_false, not_or] at hi
    obtain ⟨h3, h7, h11, h12⟩ := hi
    rw [trap_to_m_csrs, if_pos rfl, m_trap_status_get, if_neg h12, if_neg h11, if_neg h3, if_neg h7]
  frame := ⟨rfl, rfl, rfl, rfl, rfl⟩

theorem interrupted_at_s (cpu : Cpu) (cause : Nat) :
    InterruptedAtS cpu (trapToS cpu (interruptCause cause) 0) cause where
  priviledge := rfl
  pc := rfl
  epc := rfl
  cause := rfl
  tval := rfl
  disabled := by
    rw [trap_to_s_csrs, if_pos rfl, s_trap_status_get]
    rfl
  others := by
    intro a ha
    simp only [List.mem_cons, List.not_mem_nil, or_false, not_or] at ha
    obtain ⟨hepc, hcause, htval, hstatus⟩ := ha
    rw [trap_to_s_csrs, if_neg hstatus, if_neg htval, if_neg hcause, if_neg hepc]
  status := by
    intro i hi
    simp only [List.mem_cons, List.not_mem_nil, or_false, not_or] at hi
    obtain ⟨h1, h5, h8⟩ := hi
    rw [trap_to_s_csrs, if_pos rfl, s_trap_status_get, if_neg h1, if_neg h5, if_neg h8]
  frame := ⟨rfl, rfl, rfl, rfl, rfl⟩

/-- The two tests of the loop are those of the definition. -/
theorem takeable_iff {cpu : Cpu} (hl : AtLevel cpu) (cause : Nat) :
    takeable cpu cause = true ↔ Takeable cpu cause := by
  refine ⟨fun h => ?_, takeable_of⟩
  unfold takeable at h
  rw [Bool.and_eq_true, BitVec.getLsbD_and, Bool.and_eq_true] at h
  obtain ⟨⟨hip, hie⟩, h⟩ := h
  refine ⟨hip, hie, ?_⟩
  cases hd : (cpu.csrs csrMideleg).getLsbD cause with
  | false =>
    refine .inl ⟨rfl, ?_⟩
    rw [hd] at h
    rcases hl with hu | hs | hm
    · exact .inl (by rw [hu]; decide)
    · exact .inl (by rw [hs]; decide)
    · exact .inr (by simpa [hm] using h)
  | true =>
    refine .inr ⟨rfl, ?_⟩
    rw [hd] at h
    rcases hl with hu | hs | hm
    · exact .inl hu
    · exact .inr ⟨hs, by simpa [hs, sMode, mMode] using h⟩
    · simp [hm] at h

theorem selected_iff {cpu : Cpu} (hl : AtLevel cpu) (cause : Nat) :
    selected cpu = some cause ↔ FirstTakeable cpu cause := by
  rw [selected, List.find?_eq_some_iff_append, takeable_iff hl]
  constructor
  · rintro ⟨ht, before, after, he, hb⟩
    refine ⟨before, after, he, ht, fun c hc hn => ?_⟩
    have := hb c hc
    rw [(takeable_iff hl c).mpr hn] at this
    cases this
  · rintro ⟨before, after, he, ht, hb⟩
    refine ⟨ht, before, after, he, fun c hc => ?_⟩
    have hno := mt (takeable_iff hl c).mp (hb c hc)
    simpa using hno

theorem selected_none_iff {cpu : Cpu} (hl : AtLevel cpu) :
    selected cpu = none ↔ ∀ cause ∈ interruptOrder, ¬ Takeable cpu cause := by
  rw [selected, List.find?_eq_none]
  exact forall₂_congr fun cause _ => not_congr (takeable_iff hl cause)

theorem below_m {cpu : Cpu} (h : cpu.priviledge = uMode ∨ cpu.priviledge = sMode) :
    cpu.priviledge < mMode := by
  rcases h with hu | hs
  · rw [hu]
    decide
  · rw [hs]
    decide

/-- The delegation that `raise_interrupt` looks up again is the one the loop
has decided by. -/
theorem delegated_iff {cpu : Cpu} {cause : Nat} (h : Takeable cpu cause) :
    Delegated cpu csrMideleg cause ↔ (cpu.csrs csrMideleg).getLsbD cause = true := by
  refine ⟨And.right, fun hd => ⟨?_, hd⟩⟩
  obtain ⟨_, _, ⟨hn, _⟩ | ⟨_, hl⟩⟩ := h
  · rw [hd] at hn
    cases hn
  · exact below_m (hl.imp_right And.left)

/-- The one trap entered, for the first takeable interrupt. -/
theorem check_first {cpu : Cpu} (hl : AtLevel cpu) {cause : Nat} (h : FirstTakeable cpu cause) :
    cpuCheckInterrupts cpu =
      if (cpu.csrs csrMideleg).getLsbD cause then trapToS cpu (interruptCause cause) 0
      else trapToM cpu (interruptCause cause) 0 := by
  have hsel := (selected_iff hl cause).mpr h
  obtain ⟨_, _, _, ht, _⟩ := h
  rw [check_interrupts_eq, hsel]
  dsimp only
  rw [raise_interrupt_eq cpu (selected_lt hsel)]
  exact ite_congr (propext (delegated_iff ht)) (fun _ => rfl) fun _ => rfl

theorem check_none {cpu : Cpu} (hl : AtLevel cpu)
    (h : ∀ cause ∈ interruptOrder, ¬ Takeable cpu cause) : cpuCheckInterrupts cpu = cpu := by
  rw [check_interrupts_eq, (selected_none_iff hl).mpr h]

theorem exists_first {cpu : Cpu} (hl : AtLevel cpu)
    (h : ∃ cause ∈ interruptOrder, Takeable cpu cause) : ∃ cause, FirstTakeable cpu cause := by
  obtain ⟨cause, hmem, ht⟩ := h
  cases hs : selected cpu with
  | none => exact absurd ht ((selected_none_iff hl).mp hs cause hmem)
  | some first => exact ⟨first, (selected_iff hl first).mp hs⟩

theorem first_unique {cpu : Cpu} (hl : AtLevel cpu) {c d : Nat} (hc : FirstTakeable cpu c)
    (hd : FirstTakeable cpu d) : c = d := by
  have hs := (selected_iff hl c).mpr hc
  rw [(selected_iff hl d).mpr hd] at hs
  exact (Option.some.inj hs).symm

/-- In M only an interrupt that is not delegated is takeable, and none with
interrupts off. -/
theorem takeable_in_m {cpu : Cpu} {cause : Nat} (hm : cpu.priviledge = mMode)
    (h : Takeable cpu cause) :
    (cpu.csrs csrMideleg).getLsbD cause = false ∧ (cpu.csrs csrMstatus).getLsbD 3 = true := by
  obtain ⟨_, _, ⟨hd, hlt | hmie⟩ | ⟨_, hu | ⟨hs, _⟩⟩⟩ := h
  · rw [hm] at hlt
    exact absurd hlt (by decide)
  · exact ⟨hd, hmie⟩
  · rw [hm] at hu
    exact absurd hu (by decide)
  · rw [hm] at hs
    exact absurd hs (by decide)

/-- `cpu_check_interrupts` changes nothing when no interrupt is takeable, and
otherwise enters one trap, for the first takeable one of the order, at the level
its delegation says. -/
theorem interrupt_selection (cpu : Cpu) (hl : AtLevel cpu) :
    ((∀ cause ∈ interruptOrder, ¬ Takeable cpu cause) → cpuCheckInterrupts cpu = cpu) ∧
    ((∃ cause ∈ interruptOrder, Takeable cpu cause) →
      ∃ cause, FirstTakeable cpu cause ∧ ∀ d, FirstTakeable cpu d → d = cause) ∧
    (∀ cause, FirstTakeable cpu cause → (cpu.csrs csrMideleg).getLsbD cause = false →
      cpuCheckInterrupts cpu = trapToM cpu (interruptCause cause) 0 ∧
      InterruptedAtM cpu (cpuCheckInterrupts cpu) cause) ∧
    (∀ cause, FirstTakeable cpu cause → (cpu.csrs csrMideleg).getLsbD cause = true →
      cpuCheckInterrupts cpu = trapToS cpu (interruptCause cause) 0 ∧
      InterruptedAtS cpu (cpuCheckInterrupts cpu) cause) ∧
    (cpu.priviledge = mMode → (cpu.csrs csrMstatus).getLsbD 3 = false →
      cpuCheckInterrupts cpu = cpu) ∧
    (cpu.priviledge = mMode → cpuCheckInterrupts cpu = cpu ∨
      ∃ cause ∈ interruptOrder, (cpu.csrs csrMideleg).getLsbD cause = false ∧
        cpuCheckInterrupts cpu = trapToM cpu (interruptCause cause) 0) := by
  refine ⟨check_none hl, ?_, ?_, ?_, ?_, ?_⟩
  · intro h
    obtain ⟨cause, hc⟩ := exists_first hl h
    exact ⟨cause, hc, fun d hd => first_unique hl hd hc⟩
  · intro cause hc hd
    have he := check_first hl hc
    rw [if_neg (by simp [hd])] at he
    rw [he]
    exact ⟨rfl, interrupted_at_m cpu cause⟩
  · intro cause hc hd
    have he := check_first hl hc
    rw [if_pos hd] at he
    rw [he]
    exact ⟨rfl, interrupted_at_s cpu cause⟩
  · intro hm hmie
    refine check_none hl fun cause _ ht => ?_
    rw [(takeable_in_m hm ht).2] at hmie
    cases hmie
  · intro hm
    by_cases h : ∃ cause ∈ interruptOrder, Takeable cpu cause
    · obtain ⟨cause, hc⟩ := exists_first hl h
      have he := check_first hl hc
      obtain ⟨before, after, horder, ht, _⟩ := hc
      have hd := (takeable_in_m hm ht).1
      rw [if_neg (by simp [hd])] at he
      exact .inr ⟨cause, by simp [horder], hd, he⟩
    · exact .inl (check_none hl fun cause hmem ht => h ⟨cause, hmem, ht⟩)

/-- A user with these interrupts delegated, and these pending and enabled. -/
def interruptedUser (mideleg pending : BitVec 64) : Cpu :=
  { cpuReset cpuInit memBase with
    priviledge := uMode
    csrs := fun a =>
      if a = csrMideleg then mideleg else if a = csrMip ∨ a = csrMie then pending else 0 }

/-- A supervisor timer interrupt that is delegated, alone. -/
theorem interrupt_selection_user :
    AtLevel (interruptedUser 0x20 0x20) ∧
      cpuCheckInterrupts (interruptedUser 0x20 0x20) =
        trapToS (interruptedUser 0x20 0x20) (interruptCause 5) 0 := by
  have hl : AtLevel (interruptedUser 0x20 0x20) := by decide
  refine ⟨hl, ((interrupt_selection _ hl).2.2.2.1 5 ?_ (by decide)).1⟩
  exact ⟨[11, 3, 7, 9, 1], [], rfl, by decide, by decide⟩

/-- Pending, enabled and not delegated: an interrupt destined for M. -/
def DestinedForM (cpu : Cpu) (cause : Nat) : Prop :=
  (cpu.csrs csrMip).getLsbD cause = true ∧ (cpu.csrs csrMie).getLsbD cause = true ∧
    (cpu.csrs csrMideleg).getLsbD cause = false

/-- If an interrupt is destined for M then one destined for M is taken. -/
def MachineFirst (cpu : Cpu) : Prop :=
  (∃ cause ∈ interruptCauses, DestinedForM cpu cause) →
    ∃ cause ∈ interruptCauses, DestinedForM cpu cause ∧
      cpuCheckInterrupts cpu = trapToM cpu (interruptCause cause) 0

/-- A delegated interrupt, takeable at the current level, comes in the order
before all those destined for M, of which there is one. -/
def Overtaken (cpu : Cpu) : Prop :=
  ∃ before cause after, interruptOrder = before ++ cause :: after ∧
    (cpu.csrs csrMip).getLsbD cause = true ∧ (cpu.csrs csrMie).getLsbD cause = true ∧
    (cpu.csrs csrMideleg).getLsbD cause = true ∧
    (cpu.priviledge = uMode ∨ (cpu.csrs csrMstatus).getLsbD 1 = true) ∧
    (∀ c ∈ before, ¬ DestinedForM cpu c) ∧ ∃ c ∈ after, DestinedForM cpu c

theorem mem_order_iff (cause : Nat) : cause ∈ interruptOrder ↔ cause ∈ interruptCauses :=
  (mem_priority_iff cause).symm

/-- A delegated interrupt that is takeable is enabled at its level. -/
theorem takeable_below {cpu : Cpu} {cause : Nat} (h : Takeable cpu cause)
    (hd : (cpu.csrs csrMideleg).getLsbD cause = true) :
    cpu.priviledge = uMode ∨ (cpu.csrs csrMstatus).getLsbD 1 = true := by
  obtain ⟨_, _, ⟨hn, _⟩ | ⟨_, hl⟩⟩ := h
  · rw [hd] at hn
    cases hn
  · exact hl.imp_right And.right

/-- A takeable interrupt is delegated or destined for M. -/
theorem takeable_delegated {cpu : Cpu} {cause : Nat} (h : Takeable cpu cause)
    (hn : ¬ DestinedForM cpu cause) : (cpu.csrs csrMideleg).getLsbD cause = true := by
  cases hd : (cpu.csrs csrMideleg).getLsbD cause with
  | true => rfl
  | false => exact absurd ⟨h.1, h.2.1, hd⟩ hn

section
variable {cpu : Cpu} (hp : cpu.priviledge = uMode ∨ cpu.priviledge = sMode)
include hp

theorem at_level : AtLevel cpu := hp.imp_right .inl

theorem destined_takeable {cause : Nat} (h : DestinedForM cpu cause) : Takeable cpu cause :=
  ⟨h.1, h.2.1, .inl ⟨h.2.2, .inl (below_m hp)⟩⟩

theorem machine_first_of (h : ¬ Overtaken cpu) : MachineFirst cpu := by
  rintro ⟨cause, hmem, hm⟩
  have hl := at_level hp
  obtain ⟨first, hfirst⟩ := exists_first hl
    ⟨cause, (mem_order_iff cause).mpr hmem, destined_takeable hp hm⟩
  have he := check_first hl hfirst
  obtain ⟨before, after, horder, ht, hb⟩ := hfirst
  cases hd : (cpu.csrs csrMideleg).getLsbD first with
  | false =>
    rw [if_neg (by simp [hd])] at he
    have hin : first ∈ interruptOrder := by simp [horder]
    exact ⟨first, (mem_order_iff first).mp hin, ⟨ht.1, ht.2.1, hd⟩, he⟩
  | true =>
    -- what is destined for M is takeable, so it comes after the first takeable one
    exfalso
    refine h ⟨before, first, after, horder, ht.1, ht.2.1, hd, takeable_below ht hd, ?_, ?_⟩
    · intro c hc hdest
      exact hb c hc (destined_takeable hp hdest)
    · have hin := (mem_order_iff cause).mpr hmem
      rw [horder, List.mem_append, List.mem_cons] at hin
      rcases hin with hin | rfl | hin
      · exact absurd (destined_takeable hp hm) (hb cause hin)
      · rw [hm.2.2] at hd
        cases hd
      · exact ⟨cause, hin, hm⟩

/-- The interrupt taken is then a delegated one, if not the one that overtakes. -/
theorem overtaken_selects (h : Overtaken cpu) :
    ∃ first, selected cpu = some first ∧ (cpu.csrs csrMideleg).getLsbD first = true := by
  obtain ⟨before, d, after, horder, hip, hie, hd, hlev, hb, _⟩ := h
  have hl := at_level hp
  have hdt : Takeable cpu d := by
    refine ⟨hip, hie, .inr ⟨hd, ?_⟩⟩
    rcases hp with hu | hs
    · exact .inl hu
    · exact hlev.imp_right fun hsie => ⟨hs, hsie⟩
  have hsel : selected cpu = (before.find? (takeable cpu)).or (some d) := by
    rw [selected, show priority = before ++ d :: after from horder, List.find?_append,
      List.find?_cons_of_pos ((takeable_iff hl d).mpr hdt)]
  cases hf : before.find? (takeable cpu) with
  | none => exact ⟨d, by rw [hsel, hf]; rfl, hd⟩
  | some first =>
    have ht := (takeable_iff hl first).mp (List.find?_some hf)
    have hno := hb first (List.mem_of_find?_eq_some hf)
    exact ⟨first, by rw [hsel, hf]; rfl, takeable_delegated ht hno⟩

theorem overtaken_takes_s (h : Overtaken cpu) : ¬ MachineFirst cpu := by
  intro hfirst
  have hl := at_level hp
  obtain ⟨first, hsel, hdeleg⟩ := overtaken_selects hp h
  obtain ⟨before, d, after, horder, _, _, _, _, _, c, hc, hdest⟩ := h
  have hcin : c ∈ interruptCauses := (mem_order_iff c).mp (by simp [horder, hc])
  obtain ⟨taken, _, _, htaken⟩ := hfirst ⟨c, hcin, hdest⟩
  have he := check_first hl ((selected_iff hl first).mp hsel)
  rw [if_pos hdeleg, htaken] at he
  have hpriv := congrArg Cpu.priviledge he
  rw [trap_to_m_priviledge, trap_to_s_priviledge] at hpriv
  exact absurd hpriv (by decide)

end

/-- Below M, an interrupt destined for M comes first exactly when no delegated
one that is takeable precedes all those destined for M in the order. -/
theorem machine_first_iff (cpu : Cpu)
    (hp : cpu.priviledge = uMode ∨ cpu.priviledge = sMode) :
    MachineFirst cpu ↔ ¬ Overtaken cpu :=
  ⟨fun h ho => overtaken_takes_s hp ho h, machine_first_of hp⟩

/-- A machine timer interrupt alone is taken at M. -/
theorem machine_first_timer : MachineFirst (interruptedUser 0 0x80) := by
  refine (machine_first_iff _ (.inl rfl)).mpr ?_
  rintro ⟨before, cause, after, _, _, _, hd, _⟩
  have hz : (interruptedUser 0 0x80).csrs csrMideleg = 0 := rfl
  rw [hz] at hd
  simp at hd

/-- A delegated supervisor software interrupt is taken before a supervisor timer
interrupt that belongs to M. -/
theorem machine_not_first :
    ¬ ∀ cpu : Cpu, cpu.priviledge = uMode ∨ cpu.priviledge = sMode → MachineFirst cpu := by
  intro h
  refine @overtaken_takes_s (interruptedUser 0x2 0x22) (.inl rfl) ?_ (h _ (.inl rfl))
  refine ⟨[11, 3, 7, 9], 1, [5], rfl, by decide, by decide, by decide, .inl rfl, ?_, 5, by decide,
    by decide, by decide, by decide⟩
  unfold DestinedForM
  decide

end RiscvVm.Proofs
