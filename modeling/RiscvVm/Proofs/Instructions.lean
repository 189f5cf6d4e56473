import RiscvVm.Proofs.State
import RiscvVm.Proofs.Paging

namespace RiscvVm.Proofs

def rdOf (word : BitVec 32) : BitVec 5 := field word 7 5
def rs1Of (word : BitVec 32) : BitVec 5 := field word 15 5
def rs2Of (word : BitVec 32) : BitVec 5 := field word 20 5
def funct3Of (word : BitVec 32) : BitVec 3 := field word 12 3
def funct5Of (word : BitVec 32) : BitVec 5 := field word 27 5

section
variable (word : BitVec 32)

@[simp] theorem decode_r_opcode : (decodeR word).opcode = opcodeOf word := rfl
@[simp] theorem decode_i_opcode : (decodeI word).opcode = opcodeOf word := rfl
@[simp] theorem decode_i_funct3 : (decodeI word).funct3 = funct3Of word := rfl
@[simp] theorem decode_i_rd : (decodeI word).rd = rdOf word := rfl
@[simp] theorem decode_i_rs1 : (decodeI word).rs1 = rs1Of word := rfl
@[simp] theorem decode_i_raw : (decodeI word).raw = word := rfl
@[simp] theorem decode_s_funct3 : (decodeS word).funct3 = funct3Of word := rfl
@[simp] theorem decode_b_funct3 : (decodeB word).funct3 = funct3Of word := rfl
@[simp] theorem decode_u_opcode : (decodeU word).opcode = opcodeOf word := rfl
@[simp] theorem decode_j_opcode : (decodeJ word).opcode = opcodeOf word := rfl
@[simp] theorem decode_a_funct3 : (decodeA word).funct3 = funct3Of word := rfl
@[simp] theorem decode_a_funct5 : (decodeA word).funct5 = funct5Of word := rfl
@[simp] theorem decode_a_rs2 : (decodeA word).rs2 = rs2Of word := rfl

end

/-- The width of a word of the A extension, by its funct3. -/
def atomicWidth (word : BitVec 32) : Option Width :=
  if funct3Of word = 2 then some .w32
  else if funct3Of word = 3 then some .w64
  else none

def AtomicAligned (width : Width) (addr : BitVec 64) : Prop :=
  addr &&& BitVec.ofNat 64 (width.bytes - 1) = 0

instance (width : Width) (addr : BitVec 64) : Decidable (AtomicAligned width addr) :=
  inferInstanceAs (Decidable (_ = _))

/-- The translation a word of the A extension asks for, its address aligned. -/
def atomicAccess (word : BitVec 32) : Option AccessType :=
  if isAmo (funct5Of word) then some .store
  else if funct5Of word = funct5Lr then if rs2Of word = 0 then some .load else none
  else if funct5Of word = funct5Sc then some .store
  else none

/-- The data translation the machine makes when it executes this word. -/
def dataAccess (vm : Vm) (word : BitVec 32) : Option (AccessType × BitVec 64) :=
  match Opcode.ofRaw (opcodeOf word) with
  | some .load =>
    if funct3Of word = 7 then none
    else some (.load, (decodeI word).imm + cpuReadReg vm.cpu (rs1Of word))
  | some .store =>
    if funct3Of word ≤ 3 then some (.store, cpuReadReg vm.cpu (rs1Of word) + (decodeS word).imm)
    else none
  | some .amo =>
    match atomicWidth word, atomicAccess word with
    | some width, some acc =>
      let addr := cpuReadReg vm.cpu (rs1Of word)
      if AtomicAligned width addr then some (acc, addr) else none
    | _, _ => none
  | _ => none

/-- The CSR write a word of the SYSTEM opcode asks for: the CSR and the value.
A read that is refused on the way leaves nothing to be written. -/
def csrRequest (vm : Vm) (word : BitVec 32) : Option (BitVec 12 × BitVec 64) :=
  let addr := field word 20 12
  let rs1 := cpuReadReg vm.cpu (rs1Of word)
  let zimm := (rs1Of word).setWidth 64
  let replace (new : BitVec 64) : Option (BitVec 12 × BitVec 64) :=
    if rdOf word = 0 then some (addr, new) else (csrRead vm addr).map fun _ => (addr, new)
  let modify (new : BitVec 64 → BitVec 64) : Option (BitVec 12 × BitVec 64) :=
    if rs1Of word = 0 then none else (csrRead vm addr).map fun old => (addr, new old)
  if Opcode.ofRaw (opcodeOf word) ≠ some .system then none
  else
    match funct3Of word with
    | 0x1 => replace rs1
    | 0x2 => modify fun old => old ||| rs1
    | 0x3 => modify fun old => old &&& ~~~rs1
    | 0x5 => replace zimm
    | 0x6 => modify fun old => old ||| zimm
    | 0x7 => modify fun old => old &&& ~~~zimm
    | _ => none

/-- The comparison of a branch, by its funct3. -/
def branchTaken (cpu : Cpu) (word : BitVec 32) : Bool :=
  let rs1 := cpuReadReg cpu (rs1Of word)
  let rs2 := cpuReadReg cpu (rs2Of word)
  match funct3Of word with
  | 0x0 => rs1 == rs2
  | 0x1 => rs1 != rs2
  | 0x4 => rs1.slt rs2
  | 0x5 => !rs1.slt rs2
  | 0x6 => rs1.ult rs2
  | 0x7 => !rs1.ult rs2
  | _ => false

/-- Where a jump or a branch that is taken goes. -/
def jumpTarget (cpu : Cpu) (word : BitVec 32) : Option (BitVec 64) :=
  match Opcode.ofRaw (opcodeOf word) with
  | some .jal => some (cpu.pc + (decodeJ word).imm)
  | some .jalr => some (((decodeI word).imm + cpuReadReg cpu (rs1Of word)) &&& ~~~1#64)
  | some .branch => if branchTaken cpu word then some (cpu.pc + (decodeB word).imm) else none
  | _ => none

/-- The width of a store, by its funct3. -/
def storeWidthOf (word : BitVec 32) : Option Width :=
  match funct3Of word with
  | 0x0 => some .w8
  | 0x1 => some .w16
  | 0x2 => some .w32
  | 0x3 => some .w64
  | _ => none

def IsStore (word : BitVec 32) : Prop := opcodeOf word = Opcode.code .store

def IsAmo (word : BitVec 32) : Prop :=
  opcodeOf word = Opcode.code .amo ∧ isAmo (funct5Of word) = true

def IsLr (word : BitVec 32) : Prop :=
  opcodeOf word = Opcode.code .amo ∧ funct5Of word = funct5Lr

def IsSc (word : BitVec 32) : Prop :=
  opcodeOf word = Opcode.code .amo ∧ funct5Of word = funct5Sc

/-- MRET and SRET as the dispatcher recognises them, by opcode, funct3 and
immediate. `rd` and `rs1` are free, so these are more words than the two that
`Encodings.Assigned` counts as assigned. -/
def IsMret (word : BitVec 32) : Prop :=
  opcodeOf word = Opcode.code .system ∧ funct3Of word = 0 ∧ field word 20 12 = 0x302

def IsSret (word : BitVec 32) : Prop :=
  opcodeOf word = Opcode.code .system ∧ funct3Of word = 0 ∧ field word 20 12 = 0x102

def IsEcall (word : BitVec 32) : Prop :=
  opcodeOf word = Opcode.code .system ∧ funct3Of word = 0 ∧ field word 20 12 = 0

def IsEbreak (word : BitVec 32) : Prop :=
  opcodeOf word = Opcode.code .system ∧ funct3Of word = 0 ∧ field word 20 12 = 1

instance (word : BitVec 32) : Decidable (IsEcall word) := inferInstanceAs (Decidable (_ ∧ _ ∧ _))

instance (word : BitVec 32) : Decidable (IsEbreak word) := inferInstanceAs (Decidable (_ ∧ _ ∧ _))

def ecallCause (priv : BitVec 8) : BitVec 64 :=
  if priv = mMode then excEcallMMode else if priv = sMode then excEcallSMode else excEcallUMode

/-- The access a word of the A extension is refused for the sake of alignment. -/
def misalignedAtomic (vm : Vm) (word : BitVec 32) : Option AccessType :=
  match Opcode.ofRaw (opcodeOf word), atomicWidth word with
  | some .amo, some width =>
    if AtomicAligned width (cpuReadReg vm.cpu (rs1Of word)) then none else atomicAccess word
  | _, _ => none

def misalignedCause : AccessType → BitVec 64
  | .load => excLoadAddrMisaligned
  | _ => excStoreAddrMisaligned

/-- The cause and the value that belong to an exception raised by this word:
what the word is, the address it may not have, or else the word itself. -/
def exceptionRecord (vm : Vm) (word : BitVec 32) : BitVec 64 × BitVec 64 :=
  if IsEcall word then (ecallCause vm.cpu.priviledge, 0)
  else if IsEbreak word then (excBreakpoint, 0)
  else
    match misalignedAtomic vm word, dataAccess vm word with
    | some acc, _ => (misalignedCause acc, cpuReadReg vm.cpu (rs1Of word))
    | none, some (acc, va) => (accessTypeToError acc, va)
    | none, none => (excIllegalInstruction, word.setWidth 64)

/-- Everything `dispatch_instruction` can make of a machine and a word. -/
inductive Executes (vm : Vm) (word : BitVec 32) : Vm → Prop
  | nop : Executes vm word vm
  | write (value : BitVec 64) :
      Executes vm word (vm.onCpu (cpuWriteReg · (rdOf word) value))
  | branch (target : BitVec 64) (hjump : jumpTarget vm.cpu word = some target) :
      Executes vm word (vm.onCpu fun cpu => { cpu with pc := target, pcWritten := true })
  | link (target value : BitVec 64) (hjump : jumpTarget vm.cpu word = some target) :
      Executes vm word (vm.onCpu fun cpu =>
        { cpuWriteReg cpu (rdOf word) value with pc := target, pcWritten := true })
  | trap (hfault : ∀ acc va, dataAccess vm word = some (acc, va) →
        translateAddress vm.cpu vm.bus va acc = (vm.bus, .error (accessTypeToError acc))) :
      Executes vm word
        (vm.raiseException (exceptionRecord vm word).1 (exceptionRecord vm word).2)
  | load (width : Width) (va p : BitVec 64) (bus : Bus) (extend : BitVec 64 → BitVec 64)
      (hacc : dataAccess vm word = some (.load, va))
      (ht : translateAddress vm.cpu vm.bus va .load = (bus, .ok p)) :
      Executes vm word
        { cpu := cpuWriteReg vm.cpu (rdOf word) (extend (vmBusRead width bus p).2)
          bus := (vmBusRead width bus p).1 }
  | store (width : Width) (va p value : BitVec 64) (bus : Bus)
      (hacc : dataAccess vm word = some (.store, va))
      (ht : translateAddress vm.cpu vm.bus va .store = (bus, .ok p))
      (hstore : IsStore word) (hwidth : storeWidthOf word = some width) :
      Executes vm word
        { cpu := cpuInvalidateReservation vm.cpu p (BitVec.ofNat 8 width.bytes)
          bus := vmBusWrite width bus p value }
  | amo (width : Width) (va p new old : BitVec 64) (bus : Bus)
      (hwidth : atomicWidth word = some width)
      (hacc : dataAccess vm word = some (.store, va))
      (ht : translateAddress vm.cpu vm.bus va .store = (bus, .ok p)) (hamo : IsAmo word) :
      Executes vm word
        { cpu := cpuWriteReg
            (cpuInvalidateReservation vm.cpu p (BitVec.ofNat 8 width.bytes)) (rdOf word) old
          bus := vmBusWrite width bus p new }
  | lr (width : Width) (va p value : BitVec 64) (bus : Bus)
      (hlr : IsLr word) (hwidth : atomicWidth word = some width)
      (hacc : dataAccess vm word = some (.load, va))
      (ht : translateAddress vm.cpu vm.bus va .load = (bus, .ok p)) :
      Executes vm word
        { cpu := { cpuWriteReg vm.cpu (rdOf word) value with
            reservation :=
              { valid := true, physAddr := p, size := BitVec.ofNat 8 width.bytes } }
          bus := bus }
  | sc (width : Width) (va p value : BitVec 64) (bus : Bus)
      (hsc : IsSc word) (hwidth : atomicWidth word = some width)
      (hacc : dataAccess vm word = some (.store, va))
      (ht : translateAddress vm.cpu vm.bus va .store = (bus, .ok p))
      (hres : vm.cpu.reservation =
        { valid := true, physAddr := p, size := BitVec.ofNat 8 width.bytes }) :
      Executes vm word
        { cpu := { cpuWriteReg vm.cpu (rdOf word) 0 with
            reservation := { vm.cpu.reservation with valid := false } }
          bus := vmBusWrite width bus p value }
  | scFailed (width : Width) (va p : BitVec 64) (bus : Bus)
      (hsc : IsSc word) (hwidth : atomicWidth word = some width)
      (hacc : dataAccess vm word = some (.store, va))
      (ht : translateAddress vm.cpu vm.bus va .store = (bus, .ok p))
      (hres : vm.cpu.reservation ≠
        { valid := true, physAddr := p, size := BitVec.ofNat 8 width.bytes }) :
      Executes vm word
        { cpu := { cpuWriteReg vm.cpu (rdOf word) 1 with
            reservation := { vm.cpu.reservation with valid := false } }
          bus := bus }
  | csr (addr : BitVec 12) (new old : BitVec 64) (cpu : Cpu)
      (hreq : csrRequest vm word = some (addr, new)) (hw : csrWrite vm.cpu addr new = some cpu) :
      Executes vm word { vm with cpu := cpuWriteReg cpu (rdOf word) old }
  | sret (hword : IsSret word) (hpriv : vm.cpu.priviledge ≠ uMode) :
      Executes vm word (sret vm (decodeI word))
  | mret (hword : IsMret word) (hpriv : vm.cpu.priviledge = mMode) :
      Executes vm word (mret vm (decodeI word))

theorem of_raw_eq {raw : BitVec 7} {opcode : Opcode} (h : Opcode.ofRaw raw = some opcode) :
    raw = opcode.code := by
  have := List.find?_some h
  exact (beq_iff_eq.mp this).symm

theorem of_raw_of_code {raw : BitVec 7} {opcode : Opcode} (h : raw = opcode.code) :
    Opcode.ofRaw raw = some opcode := by
  subst h
  cases opcode <;> rfl

/-- The decoders' sign extension is that of the field. -/
theorem sign_extend_field {n : Nat} (x : BitVec n) (hn : 0 < n) (h32 : n ≤ 32) :
    signExtend (x.setWidth 32) n = x.signExtend 64 := by
  have hx : ∀ i, ((x.setWidth 32).setWidth 64).getLsbD i = x.getLsbD i := by
    intro i
    rw [BitVec.getLsbD_setWidth, BitVec.getLsbD_setWidth]
    by_cases hi : i < n
    · simp [show i < 64 by omega, show i < 32 by omega]
    · rw [BitVec.getLsbD_of_ge _ _ (by omega)]
      simp
  have hsign := Bits.and_one_shift_ne_zero ((x.setWidth 32).setWidth 64)
    (show n - 1 < 64 by omega)
  rw [hx] at hsign
  have hmsb : x.msb = x.getLsbD (n - 1) := BitVec.msb_eq_getLsbD_last x
  apply BitVec.eq_of_getLsbD_eq
  intro i hi
  unfold signExtend
  dsimp only
  rw [BitVec.getLsbD_signExtend, hmsb]
  split
  · rename_i h
    have hones : (0xFFFFFFFFFFFFFFFF#64).getLsbD (i - n) = true := by
      have h := BitVec.getLsbD_allOnes (v := 64) (i := i - n)
      rw [show (BitVec.allOnes 64 : BitVec 64) = 0xFFFFFFFFFFFFFFFF#64 from rfl] at h
      rw [h]
      simp
      omega
    rw [BitVec.getLsbD_or, hx, BitVec.getLsbD_shiftLeft, hones, hsign.mp h]
    by_cases hlt : i < n
    · simp [hlt, hi]
    · simp [hlt, hi]
  · rename_i h
    have hz : x.getLsbD (n - 1) = false := by
      cases hb : x.getLsbD (n - 1) with
      | false => rfl
      | true => exact absurd (hsign.mpr hb) h
    rw [hx, hz]
    by_cases hlt : i < n
    · simp [hlt, hi]
    · rw [BitVec.getLsbD_of_ge _ _ (by omega)]
      simp [hlt]

theorem funct3_values (f : BitVec 3) :
    f = 0 ∨ f = 1 ∨ f = 2 ∨ f = 3 ∨ f = 4 ∨ f = 5 ∨ f = 6 ∨ f = 7 := by
  revert f
  decide

theorem decode_i_imm (word : BitVec 32) : (decodeI word).imm = (field word 20 12).signExtend 64 :=
  sign_extend_field _ (by omega) (by omega)

/-- A small immediate is known by its field. -/
theorem imm_eq_iff {word : BitVec 32} {n : Nat} (hn : n < 2048) :
    (decodeI word).imm = BitVec.ofNat 64 n ↔ field word 20 12 = BitVec.ofNat 12 n := by
  rw [decode_i_imm]
  constructor
  · intro h
    apply BitVec.eq_of_getLsbD_eq
    intro i hi
    have hb := congrArg (fun v => v.getLsbD i) h
    simp only [BitVec.getLsbD_signExtend, BitVec.getLsbD_ofNat, hi, show i < 64 by omega, if_true,
      decide_true, Bool.true_and] at hb
    rw [hb, BitVec.getLsbD_ofNat]
    simp [hi]
  · intro h
    rw [h]
    have hmsb : (BitVec.ofNat 12 n).msb = false := by
      rw [BitVec.msb_eq_decide, BitVec.toNat_ofNat]
      simp
      omega
    apply BitVec.eq_of_toNat_eq
    rw [BitVec.toNat_signExtend, hmsb, BitVec.toNat_setWidth, BitVec.toNat_ofNat,
      BitVec.toNat_ofNat]
    simp
    omega

end RiscvVm.Proofs
