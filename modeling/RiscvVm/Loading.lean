import RiscvVm.Debugger

/-!
How images get into the memory: vm.c's `vm_load_bin` and the `load` command of
the debugger. A file is its bytes, and `fopen` what a path opens.
-/

namespace RiscvVm

/-- `memcpy` to index `dst` of the array. -/
def memcpy (mem : Memory) (dst : BitVec 64) : List (BitVec 8) → Option Memory
  | [] => some mem
  | value :: src => do
    let mem ← mem.setByte dst value
    memcpy mem (dst + 1) src

/-- The loop of `vm_load_bin`. The last turn copies nothing. -/
def loadBinLoop (mem : Memory) (addr offset : BitVec 64) (file : List (BitVec 8)) :
    Option Memory := do
  let buffer := file.take 256
  let mem ← memcpy mem (addr - memBase + offset) buffer
  if 0 < buffer.length then
    loadBinLoop mem addr (offset + BitVec.ofNat 64 buffer.length) (file.drop 256)
  else return mem
termination_by file.length
decreasing_by
  rename_i h
  simp only [buffer, List.length_take] at h
  simp only [List.length_drop]
  omega

/-- The machine and what is returned, `none` where the copying leaves the array. -/
def vmLoadBin (fopen : String → Option (List (BitVec 8))) (vm : Vm) (fpath : String)
    (addr : BitVec 64) : Option (Vm × BitVec 32) :=
  match fopen fpath with
  | none => some (vm, 1)
  | some file => do
    let ram ← loadBinLoop vm.bus.ram addr 0 file
    return ({ vm with bus := { vm.bus with ram := ram } }, 0)

/-- The loop of `cmd_load`, which stops after the first chunk that is not full. -/
def loadLoop (mem : Memory) (offset : BitVec 64) (file : List (BitVec 8)) : Option Memory := do
  let buffer := file.take 1024
  let mem ← memcpy mem offset buffer
  if buffer.length = 1024 then
    loadLoop mem (offset + BitVec.ofNat 64 buffer.length) (file.drop 1024)
  else return mem
termination_by file.length
decreasing_by
  rename_i h
  simp only [buffer, List.length_take] at h
  simp only [List.length_drop]
  omega

/-- What `cmd_load` prints. -/
inductive LoadMessage where
  | help
  | fopenError
  | notInRam (addr : BitVec 64)
  | loaded (path : String) (addr : BitVec 64)
  deriving DecidableEq

/-- `cmd_load` from the opening of the file on. -/
def loadFile (fopen : String → Option (List (BitVec 8))) (vm : Vm) (path : String)
    (addr : BitVec 64) : Option (Vm × LoadMessage) :=
  match fopen path with
  | none => some (vm, .fopenError)
  | some file =>
    let offset := addr - ramBase
    if offset ≥ ramSize then some (vm, .notInRam addr)
    else do
      let ram ← loadLoop vm.bus.ram offset file
      return ({ vm with bus := { vm.bus with ram := ram } }, .loaded path addr)

def cmdLoad (fopen : String → Option (List (BitVec 8))) (vm : Vm) (argv : List String) :
    Option (Vm × LoadMessage) :=
  match argv[1]? with
  | none => some (vm, .help)
  | some path =>
    match argv[2]? with
    | none => loadFile fopen vm path ramBase
    | some arg =>
      match numberArg arg with
      | none => some (vm, .help)
      | some addr => loadFile fopen { vm with cpu := { vm.cpu with pc := addr } } path addr

end RiscvVm
