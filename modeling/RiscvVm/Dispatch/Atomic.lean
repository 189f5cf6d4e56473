import RiscvVm.Dispatch.LoadStore

namespace RiscvVm

def funct5Lr : BitVec 5 := 0x02
def funct5Sc : BitVec 5 := 0x03

/-- The `switch` of `amo_w` and `amo_d`; `none` is its `default`. -/
def amoResult {w : Nat} (funct5 : BitVec 5) (old rhs : BitVec w) : Option (BitVec w) :=
  match funct5 with
  | 0x01 => some rhs
  | 0x00 => some (old + rhs)
  | 0x04 => some (old ^^^ rhs)
  | 0x0C => some (old &&& rhs)
  | 0x08 => some (old ||| rhs)
  | 0x10 => some (if old.slt rhs then old else rhs)
  | 0x14 => some (if rhs.slt old then old else rhs)
  | 0x18 => some (if old.ult rhs then old else rhs)
  | 0x1C => some (if rhs.ult old then old else rhs)
  | _ => none

/-- The word and the doubleword forms of the A extension differ in these. -/
structure AtomicWidth (w : Nat) where
  alignMask : BitVec 64
  size : BitVec 8
  read : Bus → BitVec 64 → BitVec w
  write : Bus → BitVec 64 → BitVec w → Bus
  truncate : BitVec 64 → BitVec w
  extend : BitVec w → BitVec 64

def atomicW : AtomicWidth 32 :=
  { alignMask := 0x3
    size := 4
    read := vmBusRead32
    write := vmBusWrite32
    truncate := fun value => value.setWidth 32
    extend := fun value => signExtend value 32 }

def atomicD : AtomicWidth 64 :=
  { alignMask := 0x7
    size := 8
    read := vmBusRead64
    write := vmBusWrite64
    truncate := fun value => value
    extend := fun value => value }

def amo {w : Nat} (width : AtomicWidth w) (vm : Vm) (instruction : AType) : Vm :=
  let addr := cpuReadReg vm.cpu instruction.rs1
  let rhs := width.truncate (cpuReadReg vm.cpu instruction.rs2)
  if addr &&& width.alignMask ≠ 0 then vm.raiseException excStoreAddrMisaligned addr
  else
    match translateAddress vm.cpu vm.bus addr .store with
    | (bus, .error cause) => Vm.raiseException { vm with bus := bus } cause addr
    | (bus, .ok physicalAddress) =>
      let old := width.read bus physicalAddress
      match amoResult instruction.funct5 old rhs with
      | none => Vm.illegalInstruction { vm with bus := bus } instruction.raw
      | some new =>
        let cpu := cpuInvalidateReservation vm.cpu physicalAddress width.size
        let bus := width.write bus physicalAddress new
        { cpu := cpuWriteReg cpu instruction.rd (width.extend old), bus := bus }

def amoW := amo atomicW
def amoD := amo atomicD

def lr {w : Nat} (width : AtomicWidth w) (vm : Vm) (instruction : AType) : Vm :=
  if instruction.rs2 ≠ 0 then vm.illegalInstruction instruction.raw
  else
    let addr := cpuReadReg vm.cpu instruction.rs1
    if addr &&& width.alignMask ≠ 0 then vm.raiseException excLoadAddrMisaligned addr
    else
      match translateAddress vm.cpu vm.bus addr .load with
      | (bus, .error cause) => Vm.raiseException { vm with bus := bus } cause addr
      | (bus, .ok physicalAddress) =>
        let value := width.read bus physicalAddress
        let cpu := cpuWriteReg vm.cpu instruction.rd (width.extend value)
        { cpu := { cpu with
            reservation := { valid := true, physAddr := physicalAddress, size := width.size } }
          bus := bus }

def lrW := lr atomicW
def lrD := lr atomicD

def sc {w : Nat} (width : AtomicWidth w) (vm : Vm) (instruction : AType) : Vm :=
  let addr := cpuReadReg vm.cpu instruction.rs1
  if addr &&& width.alignMask ≠ 0 then vm.raiseException excStoreAddrMisaligned addr
  else
    let value := width.truncate (cpuReadReg vm.cpu instruction.rs2)
    match translateAddress vm.cpu vm.bus addr .store with
    | (bus, .error cause) => Vm.raiseException { vm with bus := bus } cause addr
    | (bus, .ok physicalAddress) =>
      let vm :=
        if vm.cpu.reservation.physAddr = physicalAddress ∧ vm.cpu.reservation.valid ∧
            vm.cpu.reservation.size = width.size then
          { cpu := cpuWriteReg vm.cpu instruction.rd 0
            bus := width.write bus physicalAddress value : Vm }
        else { cpu := cpuWriteReg vm.cpu instruction.rd 1, bus := bus }
      { vm with cpu := { vm.cpu with reservation := { vm.cpu.reservation with valid := false } } }

def scW := sc atomicW
def scD := sc atomicD

/-- The `funct5` codes of the nine read-modify-write operations. -/
def isAmo (funct5 : BitVec 5) : Bool :=
  [0x00, 0x01, 0x04, 0x08, 0x0C, 0x10, 0x14, 0x18, 0x1C].contains funct5

def dispatchAExtension (vm : Vm) (instruction : AType) : Vm :=
  if isAmo instruction.funct5 then
    if instruction.funct3 = 0x2 then amoW vm instruction
    else if instruction.funct3 = 0x3 then amoD vm instruction
    else vm.illegalInstruction instruction.raw
  else if instruction.funct5 = funct5Lr then
    if instruction.funct3 = 0x2 then lrW vm instruction
    else if instruction.funct3 = 0x3 then lrD vm instruction
    else vm.illegalInstruction instruction.raw
  else if instruction.funct5 = funct5Sc then
    if instruction.funct3 = 0x2 then scW vm instruction
    else if instruction.funct3 = 0x3 then scD vm instruction
    else vm.illegalInstruction instruction.raw
  else vm.illegalInstruction instruction.raw

end RiscvVm
