import RiscvVm.Paging

namespace RiscvVm

/-- The four access widths of the bus. -/
inductive Width
  | w8
  | w16
  | w32
  | w64
deriving DecidableEq

def Width.bytes : Width → Nat
  | .w8 => 1
  | .w16 => 2
  | .w32 => 4
  | .w64 => 8

/-- The bus read of a width, its value zero-extended as in `load_result_t`. -/
def vmBusRead : Width → Bus → BitVec 64 → Bus × BitVec 64
  | .w8, bus, addr =>
    let (bus, value) := vmBusRead8 bus addr
    (bus, value.setWidth 64)
  | .w16, bus, addr => (bus, (vmBusRead16 bus addr).setWidth 64)
  | .w32, bus, addr => (bus, (vmBusRead32 bus addr).setWidth 64)
  | .w64, bus, addr => (bus, vmBusRead64 bus addr)

/-- The bus write of a width, of the low bytes of the value. -/
def vmBusWrite : Width → Bus → BitVec 64 → BitVec 64 → Bus
  | .w8, bus, addr, value => vmBusWrite8 bus addr (value.setWidth 8)
  | .w16, bus, addr, value => vmBusWrite16 bus addr (value.setWidth 16)
  | .w32, bus, addr, value => vmBusWrite32 bus addr (value.setWidth 32)
  | .w64, bus, addr, value => vmBusWrite64 bus addr value

def cpuFetch (vm : Vm) : Vm × Option (BitVec 32) :=
  match translateAddress vm.cpu vm.bus vm.cpu.pc .fetch with
  | (bus, .error cause) => (Vm.raiseException { vm with bus := bus } cause vm.cpu.pc, none)
  | (bus, .ok physicalAddress) =>
    ({ vm with bus := bus }, some (vmBusRead32 bus physicalAddress))

/-- `cpu_load8` to `cpu_load64`; `none` is a result without `success`. -/
def cpuLoad (width : Width) (vm : Vm) (vaddr : BitVec 64) : Vm × Option (BitVec 64) :=
  match translateAddress vm.cpu vm.bus vaddr .load with
  | (bus, .error cause) => (Vm.raiseException { vm with bus := bus } cause vaddr, none)
  | (bus, .ok physicalAddress) =>
    let (bus, value) := vmBusRead width bus physicalAddress
    ({ vm with bus := bus }, some value)

def cpuLoad8 : Vm → BitVec 64 → Vm × Option (BitVec 64) := cpuLoad .w8
def cpuLoad16 : Vm → BitVec 64 → Vm × Option (BitVec 64) := cpuLoad .w16
def cpuLoad32 : Vm → BitVec 64 → Vm × Option (BitVec 64) := cpuLoad .w32
def cpuLoad64 : Vm → BitVec 64 → Vm × Option (BitVec 64) := cpuLoad .w64

/-- `cpu_store8` to `cpu_store64`; the flag is the `success` of the result. -/
def cpuStore (width : Width) (vm : Vm) (vaddr value : BitVec 64) : Vm × Bool :=
  match translateAddress vm.cpu vm.bus vaddr .store with
  | (bus, .error cause) => (Vm.raiseException { vm with bus := bus } cause vaddr, false)
  | (bus, .ok physicalAddress) =>
    let cpu := cpuInvalidateReservation vm.cpu physicalAddress (BitVec.ofNat 8 width.bytes)
    ({ cpu := cpu, bus := vmBusWrite width bus physicalAddress value }, true)

def cpuStore8 : Vm → BitVec 64 → BitVec 64 → Vm × Bool := cpuStore .w8
def cpuStore16 : Vm → BitVec 64 → BitVec 64 → Vm × Bool := cpuStore .w16
def cpuStore32 : Vm → BitVec 64 → BitVec 64 → Vm × Bool := cpuStore .w32
def cpuStore64 : Vm → BitVec 64 → BitVec 64 → Vm × Bool := cpuStore .w64

end RiscvVm
