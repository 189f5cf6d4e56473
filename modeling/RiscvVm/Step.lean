import RiscvVm.Dispatch.Atomic
import RiscvVm.Dispatch.System

namespace RiscvVm

/-- A handler that touches the CPU only, run in the machine. -/
def Vm.onCpu (vm : Vm) (f : Cpu → Cpu) : Vm := { vm with cpu := f vm.cpu }

def executeI (vm : Vm) (instruction : IType) : Vm :=
  match Opcode.ofRaw instruction.opcode with
  | some .opImm => vm.onCpu (dispatchOpImm · instruction)
  | some .opImm32 => vm.onCpu (dispatchOpImm32 · instruction)
  | some .load => dispatchLoad vm instruction
  | some .jalr => vm.onCpu (jalr · instruction)
  | some .system => dispatchSystem vm instruction
  | some .miscMem => dispatchMiscMem vm instruction
  | _ => vm.illegalInstruction instruction.raw

def dispatchInstruction (vm : Vm) (instruction : BitVec 32) : Vm :=
  match Opcode.ofRaw (opcodeOf instruction) with
  | some .lui | some .auipc => vm.onCpu (executeU · (decodeU instruction))
  | some .jal => vm.onCpu (dispatchJal · (decodeJ instruction))
  | some .jalr | some .load | some .opImm | some .system | some .miscMem | some .opImm32 =>
    executeI vm (decodeI instruction)
  | some .branch => vm.onCpu (dispatchBranch · (decodeB instruction))
  | some .store => dispatchStore vm (decodeS instruction)
  | some .op | some .op32 => vm.onCpu (executeR · (decodeR instruction))
  | some .amo => dispatchAExtension vm (decodeA instruction)
  | none => vm.illegalInstruction instruction

def incrementPc (cpu : Cpu) : Cpu :=
  if !cpu.trapTaken ∧ !cpu.pcWritten then { cpu with pc := cpu.pc + 4 } else cpu

/-- MEI, MSI, MTI, SEI, SSI, STI. -/
def priority : List Nat := [11, 3, 7, 9, 1, 5]

/-- The loop of `cpu_check_interrupts` over the causes still to be looked at.
`mstatus`, `mideleg` and `pending` were read before the loop. -/
def checkInterruptsLoop (cpu : Cpu) (mstatus mideleg pending : BitVec 64) : List Nat → Cpu
  | [] => cpu
  | cause :: rest =>
    if !pending.getLsbD cause then checkInterruptsLoop cpu mstatus mideleg pending rest
    else
      let delegated := mideleg.getLsbD cause
      if !delegated then
        let mieGlobal := mstatus.getLsbD 3
        if cpu.priviledge = mMode ∧ !mieGlobal then
          checkInterruptsLoop cpu mstatus mideleg pending rest
        else raiseInterrupt cpu (BitVec.ofNat 64 cause)
      else
        let sieGlobal := mstatus.getLsbD 1
        if cpu.priviledge = mMode then checkInterruptsLoop cpu mstatus mideleg pending rest
        else if cpu.priviledge = sMode ∧ !sieGlobal then
          checkInterruptsLoop cpu mstatus mideleg pending rest
        else raiseInterrupt cpu (BitVec.ofNat 64 cause)

def cpuCheckInterrupts (cpu : Cpu) : Cpu :=
  let mstatus := cpu.csrs csrMstatus
  let mip := cpu.csrs csrMip
  let mie := cpu.csrs csrMie
  let mideleg := cpu.csrs csrMideleg
  let pending := mip &&& mie
  if pending = 0 then cpu
  else checkInterruptsLoop cpu mstatus mideleg pending priority

/-- The first two statements of `cpu_step`. -/
def beginStep (cpu : Cpu) : Cpu :=
  { cpu.setCsr csrMcycle (cpu.csrs csrMcycle + 1) with trapTaken := false }

def countRetired (cpu : Cpu) : Cpu :=
  if !cpu.trapTaken then cpu.setCsr csrMinstret (cpu.csrs csrMinstret + 1) else cpu

/-- A fetch that has trapped ends the step before the interrupt check. -/
def cpuStep (vm : Vm) : Vm :=
  match cpuFetch (vm.onCpu beginStep) with
  | (vm, none) => vm
  | (vm, some instruction) =>
    let vm := dispatchInstruction vm instruction
    let vm := vm.onCpu incrementPc
    let vm := vm.onCpu countRetired
    let vm := vm.onCpu cpuCheckInterrupts
    vm.onCpu fun cpu => { cpu with pcWritten := false }

end RiscvVm
