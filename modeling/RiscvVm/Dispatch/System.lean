import RiscvVm.Csr
import RiscvVm.Dispatch.LoadStore

namespace RiscvVm

def ecall (vm : Vm) (_instruction : IType) : Vm :=
  let cause :=
    if vm.cpu.priviledge = mMode then excEcallMMode
    else if vm.cpu.priviledge = sMode then excEcallSMode
    else excEcallUMode
  vm.raiseException cause 0

def ebreak (vm : Vm) (_instruction : IType) : Vm := vm.raiseException excBreakpoint 0

def sfenceVma (vm : Vm) (instruction : IType) : Vm :=
  if vm.cpu.priviledge = uMode then vm.illegalInstruction instruction.raw
  else if vm.cpu.priviledge = sMode ∧ (vm.cpu.csrs csrMstatus).getLsbD 20 then
    vm.illegalInstruction instruction.raw
  else vm

def sret (vm : Vm) (instruction : IType) : Vm :=
  if vm.cpu.priviledge = uMode then vm.illegalInstruction instruction.raw
  else
    let mstatus := vm.cpu.csrs csrMstatus
    let spp := mstatus.getLsbD 8
    let spie := mstatus.getLsbD 5
    let mstatus := setBit mstatus 1 spie
    let mstatus := setBit mstatus 5 true
    let mstatus := setBit mstatus 8 false
    { vm with cpu :=
      { vm.cpu.setCsr csrMstatus mstatus with
        priviledge := if spp then 1 else 0
        pc := vm.cpu.csrs csrSepc
        pcWritten := true } }

def mret (vm : Vm) (instruction : IType) : Vm :=
  if vm.cpu.priviledge ≠ mMode then vm.illegalInstruction instruction.raw
  else
    let mstatus := vm.cpu.csrs csrMstatus
    let mpp := ((mstatus >>> 11) &&& 0x3).setWidth 8
    let mpie := mstatus.getLsbD 7
    let mstatus := setBit mstatus 3 mpie
    let mstatus := setBit mstatus 7 true
    let mstatus := setBit mstatus 11 false
    let mstatus := setBit mstatus 12 false
    { vm with cpu :=
      { vm.cpu.setCsr csrMstatus mstatus with
        priviledge := mpp
        pc := vm.cpu.csrs csrMepc
        pcWritten := true } }

def wfi (vm : Vm) (_instruction : IType) : Vm := vm

/-- The end of every CSR handler: the write, then `rd`. -/
def finishCsrWrite (vm : Vm) (instruction : IType) (addr : BitVec 12) (new old : BitVec 64) : Vm :=
  match csrWrite vm.cpu addr new with
  | none => vm.illegalInstruction instruction.raw
  | some cpu => { vm with cpu := cpuWriteReg cpu instruction.rd old }

/-- `csrrw` and `csrrwi`: nothing is read when `rd` is `x0`. -/
def csrReplace (source : Vm → IType → BitVec 64) (vm : Vm) (instruction : IType) : Vm :=
  let addr := field instruction.raw 20 12
  let new := source vm instruction
  if instruction.rd ≠ 0 then
    match csrRead vm addr with
    | none => vm.illegalInstruction instruction.raw
    | some old => finishCsrWrite vm instruction addr new old
  else finishCsrWrite vm instruction addr new 0

/-- `csrrs`, `csrrc` and their immediate forms: nothing is written when the
`rs1` field is 0. -/
def csrModify (combine : BitVec 64 → BitVec 64 → BitVec 64) (source : Vm → IType → BitVec 64)
    (vm : Vm) (instruction : IType) : Vm :=
  let addr := field instruction.raw 20 12
  match csrRead vm addr with
  | none => vm.illegalInstruction instruction.raw
  | some old =>
    if instruction.rs1 ≠ 0 then
      finishCsrWrite vm instruction addr (combine old (source vm instruction)) old
    else { vm with cpu := cpuWriteReg vm.cpu instruction.rd old }

def fromRs1 (vm : Vm) (instruction : IType) : BitVec 64 := cpuReadReg vm.cpu instruction.rs1
def fromZimm (_vm : Vm) (instruction : IType) : BitVec 64 := instruction.rs1.setWidth 64

def csrrw := csrReplace fromRs1
def csrrs := csrModify (fun old rs1 => old ||| rs1) fromRs1
def csrrc := csrModify (fun old rs1 => old &&& ~~~rs1) fromRs1
def csrrwi := csrReplace fromZimm
def csrrsi := csrModify (fun old zimm => old ||| zimm) fromZimm
def csrrci := csrModify (fun old zimm => old &&& ~~~zimm) fromZimm

def dispatchSystem (vm : Vm) (instruction : IType) : Vm :=
  match instruction.funct3 with
  | 0x0 =>
    let funct7 := field instruction.raw 25 7
    let rd := field instruction.raw 7 5
    if funct7 = 0x09 ∧ rd = 0 then sfenceVma vm instruction
    else
      match instruction.imm with
      | 0x000 => ecall vm instruction
      | 0x001 => ebreak vm instruction
      | 0x102 => sret vm instruction
      | 0x302 => mret vm instruction
      | 0x105 => wfi vm instruction
      | _ => vm.illegalInstruction instruction.raw
  | 0x1 => csrrw vm instruction
  | 0x2 => csrrs vm instruction
  | 0x3 => csrrc vm instruction
  | 0x5 => csrrwi vm instruction
  | 0x6 => csrrsi vm instruction
  | 0x7 => csrrci vm instruction
  | _ => vm.illegalInstruction instruction.raw

def fenceI (vm : Vm) (instruction : IType) : Vm :=
  if instruction.rd ≠ 0 ∨ instruction.rs1 ≠ 0 ∨ instruction.imm ≠ 0 then
    vm.illegalInstruction instruction.raw
  else vm

def fence (vm : Vm) (_instruction : IType) : Vm := vm

def dispatchMiscMem (vm : Vm) (instruction : IType) : Vm :=
  match instruction.funct3 with
  | 0x0 => fence vm instruction
  | 0x1 => fenceI vm instruction
  | _ => vm.illegalInstruction instruction.raw

end RiscvVm
