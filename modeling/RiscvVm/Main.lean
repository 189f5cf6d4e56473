import RiscvVm.Loading

/-!
The program itself: what `main` of vm_main.c does with its images, and its loop
with standard input.
-/

namespace RiscvVm

/-- `main` up to its loop: the machine it has set up, or the code it exits with,
and `none` where the loading leaves the array. -/
def mainBoot (fopen : String → Option (List (BitVec 8))) (ram : Memory) :
    Option (Except (BitVec 32) Vm) := do
  let (vm, ret) ← vmLoadBin fopen (vmInit ram) "src/vm/fw_jump.bin" ramBase
  if ret ≠ 0 then return .error ret
  let (vm, ret) ← vmLoadBin fopen vm "build/vm.dtb" (ramBase + 0x02200000)
  if ret ≠ 0 then return .error ret
  let (vm, ret) ← vmLoadBin fopen vm "src/vm/kernel.img" 0x80200000
  if ret ≠ 0 then return .error ret
  return .ok (vm.onCpu fun cpu =>
    { cpu with
      pc := 0x80000000
      regs := fun r => if r = 10 then 0 else if r = 11 then 0x82200000 else cpu.regs r
      priviledge := mMode })

/-- The program in its loop, with what standard input has still to deliver. -/
structure Running where
  vm : Vm
  counter : BitVec 32
  stdin : List (BitVec 8)

/-- The byte that `uart_handle_host_input` reads, if it has room for one and
`poll` finds standard input ready, and what it leaves. -/
def hostByte (uart : Uart) (stdin : List (BitVec 8)) (ready : Bool) :
    Option (BitVec 8) × List (BitVec 8) :=
  if uart.rxCount = uartFifoSize then (none, stdin)
  else
    match ready, stdin with
    | true, byte :: rest => (some byte, rest)
    | _, _ => (none, stdin)

/-- One iteration of the loop. `ready` is what `poll` finds if it is called. -/
def Running.iterate (run : Running) (ready : Bool) : Running :=
  let vm := vmTick (cpuStep run.vm)
  let counter := run.counter + 1
  if counter = 1000 then
    let (input, stdin) := hostByte vm.bus.uart run.stdin ready
    { vm := { vm with bus := { vm.bus with uart := uartHandleHostInput vm.bus.uart input } }
      counter := 0
      stdin := stdin }
  else { vm := vm, counter := counter, stdin := run.stdin }

end RiscvVm
