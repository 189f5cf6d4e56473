import RiscvVm.Access
import RiscvVm.Dispatch.Integer

namespace RiscvVm

/-- A handler of a load: `extend` is what it makes of the value on the way to
`rd`, which stays unwritten when the load has trapped. -/
def loadOp (width : Width) (extend : BitVec 64 → BitVec 64) (vm : Vm) (instruction : IType) : Vm :=
  let addr := instruction.imm + cpuReadReg vm.cpu instruction.rs1
  match cpuLoad width vm addr with
  | (vm, none) => vm
  | (vm, some value) => { vm with cpu := cpuWriteReg vm.cpu instruction.rd (extend value) }

def lb := loadOp .w8 fun value => signExtend (value.setWidth 32) 8
def lh := loadOp .w16 fun value => signExtend (value.setWidth 32) 16
def lw := loadOp .w32 fun value => signExtend (value.setWidth 32) 32
def ld := loadOp .w64 fun value => value
def lbu := loadOp .w8 fun value => value
def lhu := loadOp .w16 fun value => value
def lwu := loadOp .w32 fun value => value

def Vm.illegalInstruction (vm : Vm) (raw : BitVec 32) : Vm :=
  { vm with cpu := RiscvVm.illegalInstruction vm.cpu raw }

def dispatchLoad (vm : Vm) (instruction : IType) : Vm :=
  match instruction.funct3 with
  | 0x0 => lb vm instruction
  | 0x1 => lh vm instruction
  | 0x2 => lw vm instruction
  | 0x3 => ld vm instruction
  | 0x4 => lbu vm instruction
  | 0x5 => lhu vm instruction
  | 0x6 => lwu vm instruction
  | _ => vm.illegalInstruction instruction.raw

/-- A handler of a store; the result of `cpu_storeN` is not looked at. -/
def storeOp (width : Width) (vm : Vm) (instruction : SType) : Vm :=
  let value := cpuReadReg vm.cpu instruction.rs2
  let addr := cpuReadReg vm.cpu instruction.rs1 + instruction.imm
  (cpuStore width vm addr value).1

def sb := storeOp .w8
def sh := storeOp .w16
def sw := storeOp .w32
def sd := storeOp .w64

def dispatchStore (vm : Vm) (instruction : SType) : Vm :=
  match instruction.funct3 with
  | 0x0 => sb vm instruction
  | 0x1 => sh vm instruction
  | 0x2 => sw vm instruction
  | 0x3 => sd vm instruction
  | _ => vm.illegalInstruction instruction.raw

end RiscvVm
