import RiscvVm.Proofs.State

namespace RiscvVm.Proofs

/-- The value a masked write leaves. -/
def blend (mask old new : BitVec 64) : BitVec 64 := (old &&& ~~~mask) ||| (new &&& mask)

/-- A write that is accepted goes through one of the handlers, or through the
mask of its CSR. -/
inductive Writes (cpu : Cpu) (addr : BitVec 12) (value : BitVec 64) : Cpu → Prop
  | misa (h : addr = csrMisa) : Writes cpu addr value cpu
  | mtvec (h : addr = csrMtvec) : Writes cpu addr value (mtvecWrite cpu value)
  | stvec (h : addr = csrStvec) : Writes cpu addr value (stvecWrite cpu value)
  | sstatus (h : addr = csrSstatus) : Writes cpu addr value (sstatusWrite cpu value)
  | sie (h : addr = csrSie) : Writes cpu addr value (sieWrite cpu value)
  | sip (h : addr = csrSip) : Writes cpu addr value (sipWrite cpu value)
  | masked (himp : (csrTable addr).implemented = true) (hw : (csrTable addr).write = none) :
      Writes cpu addr value
        (cpu.setCsr addr (blend (csrTable addr).writeMask (cpu.csrs addr) value))

theorem csr_load_mem {addr : BitVec 12} {descriptor : CsrDescriptor}
    (h : csrLoad.lookup addr = some descriptor) : (addr, descriptor) ∈ csrLoad := by
  obtain ⟨before, after, he, _⟩ := List.lookup_eq_some_iff.mp h
  rw [he]
  simp

theorem table_mem {addr : BitVec 12} (h : (csrTable addr).implemented = true) :
    (addr, csrTable addr) ∈ csrLoad := by
  unfold csrTable at h ⊢
  cases hl : csrLoad.lookup addr with
  | none =>
    rw [hl] at h
    cases h
  | some descriptor => exact csr_load_mem hl

/-- The CSRs whose writes go through a handler. -/
theorem table_write {addr : BitVec 12} {f : Cpu → BitVec 64 → Cpu}
    (himp : (csrTable addr).implemented = true) (h : (csrTable addr).write = some f) :
    (addr = csrMisa ∧ f = misaWrite) ∨ (addr = csrMtvec ∧ f = mtvecWrite) ∨
      (addr = csrStvec ∧ f = stvecWrite) ∨ (addr = csrSstatus ∧ f = sstatusWrite) ∨
      (addr = csrSie ∧ f = sieWrite) ∨ (addr = csrSip ∧ f = sipWrite) := by
  have hmem := table_mem himp
  generalize csrTable addr = descriptor at hmem h
  simp only [csrLoad, mcsrLoadTable, scsrLoadTable, ucsrLoadTable, List.cons_append,
    List.nil_append, List.mem_cons, List.not_mem_nil, or_false, Prod.mk.injEq] at hmem
  rcases hmem with ⟨rfl, rfl⟩ | ⟨rfl, rfl⟩ | ⟨rfl, rfl⟩ | ⟨rfl, rfl⟩ | ⟨rfl, rfl⟩ | ⟨rfl, rfl⟩ |
    ⟨rfl, rfl⟩ | ⟨rfl, rfl⟩ | ⟨rfl, rfl⟩ | ⟨rfl, rfl⟩ | ⟨rfl, rfl⟩ | ⟨rfl, rfl⟩ | ⟨rfl, rfl⟩ |
    ⟨rfl, rfl⟩ | ⟨rfl, rfl⟩ | ⟨rfl, rfl⟩ | ⟨rfl, rfl⟩ | ⟨rfl, rfl⟩ | ⟨rfl, rfl⟩ | ⟨rfl, rfl⟩ |
    ⟨rfl, rfl⟩ | ⟨rfl, rfl⟩ | ⟨rfl, rfl⟩ | ⟨rfl, rfl⟩ | ⟨rfl, rfl⟩ | ⟨rfl, rfl⟩ | ⟨rfl, rfl⟩ |
    ⟨rfl, rfl⟩ | ⟨rfl, rfl⟩ | ⟨rfl, rfl⟩ | ⟨rfl, rfl⟩ <;> cases h
  all_goals simp

theorem csr_write_cases {cpu cpu' : Cpu} {addr : BitVec 12} {value : BitVec 64}
    (h : csrWrite cpu addr value = some cpu') :
    csrCanWrite addr cpu.priviledge = true ∧ Writes cpu addr value cpu' := by
  unfold csrWrite at h
  dsimp only at h
  split at h
  · cases h
  rename_i himp
  have himp' : (csrTable addr).implemented = true := by simpa using himp
  split at h
  · cases h
  rename_i hcan
  refine ⟨by simpa using hcan, ?_⟩
  cases hw : (csrTable addr).write with
  | none =>
    rw [hw] at h
    cases h
    exact .masked himp' hw
  | some f =>
    rw [hw] at h
    cases h
    rcases table_write himp' hw with ⟨ha, rfl⟩ | ⟨ha, rfl⟩ | ⟨ha, rfl⟩ | ⟨ha, rfl⟩ | ⟨ha, rfl⟩ |
      ⟨ha, rfl⟩
    · exact .misa ha
    · exact .mtvec ha
    · exact .stvec ha
    · exact .sstatus ha
    · exact .sie ha
    · exact .sip ha

/-- A CSR that exists and may be written is. -/
theorem csr_write_some (cpu : Cpu) {addr : BitVec 12} (value : BitVec 64)
    (himp : (csrTable addr).implemented = true)
    (hcan : csrCanWrite addr cpu.priviledge = true) :
    ∃ cpu', csrWrite cpu addr value = some cpu' := by
  unfold csrWrite
  dsimp only
  rw [himp, hcan]
  cases (csrTable addr).write with
  | none => exact ⟨_, rfl⟩
  | some f => exact ⟨_, rfl⟩

/-- A CSR write changes CSRs only. -/
theorem writes_eq {cpu cpu' : Cpu} {addr : BitVec 12} {value : BitVec 64}
    (h : Writes cpu addr value cpu') : cpu' = { cpu with csrs := cpu'.csrs } := by
  cases h <;> rfl

theorem writes_implemented {cpu cpu' : Cpu} {addr : BitVec 12} {value : BitVec 64}
    (h : Writes cpu addr value cpu') : (csrTable addr).implemented = true := by
  cases h with
  | misa h => rw [h]; rfl
  | mtvec h => rw [h]; rfl
  | stvec h => rw [h]; rfl
  | sstatus h => rw [h]; rfl
  | sie h => rw [h]; rfl
  | sip h => rw [h]; rfl
  | masked himp hw => exact himp

/-- The CSRs that sstatus, sie and sip are views of. -/
def viewed : List (BitVec 12) := [csrMstatus, csrMie, csrMip]

/-- A write leaves the CSRs alone that it does not name, those with views apart. -/
theorem Writes.other {cpu cpu' : Cpu} {a addr : BitVec 12} {value : BitVec 64}
    (h : Writes cpu addr value cpu') (ha : a ≠ addr) (hv : a ∉ viewed) :
    cpu'.csrs a = cpu.csrs a := by
  have hview : a ≠ csrMstatus ∧ a ≠ csrMie ∧ a ≠ csrMip := by simpa [viewed] using hv
  cases h with
  | misa h => rfl
  | mtvec h => exact if_neg (h ▸ ha)
  | stvec h => exact if_neg (h ▸ ha)
  | sstatus h => exact if_neg hview.1
  | sie h => exact if_neg hview.2.1
  | sip h => exact if_neg hview.2.2
  | masked himp hw => exact if_neg ha

/-- What a write leaves in the CSR it names, when that has no handler. -/
theorem Writes.named {cpu cpu' : Cpu} {addr : BitVec 12} {value : BitVec 64}
    (h : Writes cpu addr value cpu') (hw : (csrTable addr).write = none) :
    cpu'.csrs addr = blend (csrTable addr).writeMask (cpu.csrs addr) value := by
  cases h with
  | masked himp _ => exact if_pos rfl
  | _ ha =>
    rw [ha] at hw
    cases hw

theorem blend_allOnes (old new : BitVec 64) : blend (BitVec.allOnes 64) old new = new := by
  rw [blend, BitVec.not_allOnes, BitVec.and_allOnes, BitVec.and_zero, BitVec.zero_or]

/-- A write that does not name mstatus changes at most what sstatus shows of it. -/
theorem Writes.mstatus {cpu cpu' : Cpu} {addr : BitVec 12} {value : BitVec 64}
    (h : Writes cpu addr value cpu') (ha : addr ≠ csrMstatus) :
    Bits.EqOff sstatusWriteMask (cpu'.csrs csrMstatus) (cpu.csrs csrMstatus) := by
  cases h with
  | misa h => exact .refl _ _
  | mtvec h => exact .refl _ _
  | stvec h => exact .refl _ _
  | sstatus h => exact Bits.eqOff_blend sstatusWriteMask (cpu.csrs csrMstatus) value
  | sie h => exact .refl _ _
  | sip h => exact .refl _ _
  | masked himp hw =>
    rw [set_csr_csrs, if_neg fun h => ha h.symm]
    exact .refl _ _

/-- No write reaches more of mip than the supervisor's interrupts. -/
theorem Writes.mip {cpu cpu' : Cpu} {addr : BitVec 12} {value : BitVec 64}
    (h : Writes cpu addr value cpu') :
    Bits.EqOff supervisorInterruptMask (cpu'.csrs csrMip) (cpu.csrs csrMip) := by
  cases h with
  | misa h => exact .refl _ _
  | mtvec h => exact .refl _ _
  | stvec h => exact .refl _ _
  | sstatus h => exact .refl _ _
  | sie h => exact .refl _ _
  | sip h =>
    have hoff := Bits.eqOff_blend (supervisorInterruptMask &&& cpu.csrs csrMideleg)
      (cpu.csrs csrMip) value
    refine hoff.mono ?_
    rw [BitVec.and_comm, ← BitVec.and_assoc, BitVec.and_self]
  | masked himp hw =>
    rw [set_csr_csrs]
    split
    · rename_i ha
      subst ha
      exact (Bits.eqOff_blend (csrTable csrMip).writeMask _ value).mono (by decide)
    · exact .refl _ _

end RiscvVm.Proofs
