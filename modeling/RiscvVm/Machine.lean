import RiscvVm.Step

namespace RiscvVm

/-- `cpu_t cpu = { 0 }`; loading the CSR table changes nothing in the CPU. -/
def cpuInit : Cpu :=
  { regs := fun _ => 0
    csrs := fun _ => 0
    pc := 0
    priviledge := 0
    reservation := { valid := false, physAddr := 0, size := 0 }
    trapTaken := false
    pcWritten := false }

def cpuReset (cpu : Cpu) (resetAddr : BitVec 64) : Cpu :=
  csrReset { cpu with
    pc := resetAddr
    priviledge := mMode
    trapTaken := false
    regs := fun _ => 0 }

/-- `vm_init`, with any contents of the RAM it maps. -/
def vmInit (ram : Memory) : Vm :=
  { cpu := cpuReset cpuInit memBase
    bus := { ram := ram, timer := timerReset, uart := uartInit, transmitted := [] } }

/-- What `main` sets up between `vm_init` and its loop, given the RAM with the
images loaded. -/
def vmBoot (ram : Memory) : Vm :=
  (vmInit ram).onCpu fun cpu =>
    { cpu with
      pc := 0x80000000
      regs := fun r => if r = 10 then 0 else if r = 11 then 0x82200000 else cpu.regs r
      priviledge := mMode }

def vmTick (vm : Vm) : Vm :=
  let timer := timerTick vm.bus.timer
  let cpu := cpuSetInterruptPending vm.cpu irqSoftware (timer.msip.getLsbD 0)
  let cpu := cpuSetInterruptPending cpu irqTimer (decide (timer.mtime ≥ timer.mtimecmp))
  { cpu := cpu, bus := { vm.bus with timer := timer } }

/-- What the host does in one turn of the loop of `main`: every thousandth turn
polls standard input, which then has a byte or not. -/
inductive HostTurn
  | quiet
  | poll (input : Option (BitVec 8))

def hostInput (vm : Vm) : HostTurn → Vm
  | .quiet => vm
  | .poll input => { vm with bus := { vm.bus with uart := uartHandleHostInput vm.bus.uart input } }

/-- One iteration of the loop of `main`. -/
def mainLoop (vm : Vm) (host : HostTurn) : Vm := hostInput (vmTick (cpuStep vm)) host

/-- States the machine can be in between two iterations, polling whenever. -/
inductive Reachable : Vm → Prop
  | init (ram : Memory) : Reachable (vmInit ram)
  | boot (ram : Memory) : Reachable (vmBoot ram)
  | iterate (vm : Vm) (host : HostTurn) (h : Reachable vm) : Reachable (mainLoop vm host)

end RiscvVm
