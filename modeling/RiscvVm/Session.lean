import RiscvVm.Loading

/-!
A session with the debugger: cli.c from `cli_run` down, over the commands of
RiscvVm.Debugger and RiscvVm.Loading. What is printed is left out.
-/

namespace RiscvVm

/-- Why a session has no outcome: C and its library do not say what the code
does, or a loop or a script has not come to its end yet. -/
inductive Stop where
  | undefined
  | outOfFuel
  deriving DecidableEq

/-- The files: which one a path names, what it contains, and whether `save.dump`
can be opened for writing. -/
structure Files where
  names : String → String
  contents : String → Option (List (BitVec 8))
  writable : Bool

def Files.fopen (files : Files) (path : String) : Option (List (BitVec 8)) :=
  files.contents (files.names path)

/-- What the commands act on. -/
structure Session where
  vm : Vm
  breakpoints : Breakpoints
  files : Files

def newline : BitVec 8 := 10

def charOf (c : BitVec 8) : Char := Char.ofNat c.toNat

/-- Up to this many bytes of a stream, none after a newline. -/
def fgetsLoop : Nat → List (BitVec 8) → List (BitVec 8) × List (BitVec 8)
  | 0, stream => ([], stream)
  | _ + 1, [] => ([], [])
  | n + 1, c :: stream =>
    if c = newline then ([c], stream)
    else
      let (line, rest) := fgetsLoop n stream
      (c :: line, rest)

/-- What `fgets` reads into a buffer of this size, and the rest of the stream. -/
def fgets (size : Nat) (stream : List (BitVec 8)) : Option (List (BitVec 8) × List (BitVec 8)) :=
  match stream with
  | [] => none
  | _ :: _ => some (fgetsLoop (size - 1) stream)

/-- What up to so many calls of `fgets` read. -/
def fgetsLines (size : Nat) : Nat → List (BitVec 8) → List (List (BitVec 8))
  | 0, _ => []
  | calls + 1, stream =>
    match fgets size stream with
    | none => []
    | some (line, rest) => line :: fgetsLines size calls rest

/-- What the calls of `fgets` read up to the end of the stream. -/
def linesOf (size : Nat) (stream : List (BitVec 8)) : List (List (BitVec 8)) :=
  fgetsLines size stream.length stream

/-- `strtok` with `" "`: the next token, and where the one after it is looked for. -/
def strtok (s : List Char) : Option (List Char × List Char) :=
  match s.dropWhile (· == ' ') with
  | [] => none
  | c :: rest =>
    some ((c :: rest).takeWhile (· != ' '), ((c :: rest).dropWhile (· != ' ')).drop 1)

def argvLoop : Nat → List Char → List (List Char)
  | 0, _ => []
  | n + 1, s =>
    match strtok s with
    | none => []
    | some (token, rest) => token :: argvLoop n rest

/-- `argv` of `dispatch_command`, however long. -/
def argvOf (buffer : List Char) : List (List Char) := argvLoop buffer.length buffer

/-- What `buffer` holds when `strtok` is done with it: it ends after the first
token, but begins where it began. -/
def bufferAfter (buffer : List Char) : List Char :=
  buffer.takeWhile (· == ' ') ++ (buffer.dropWhile (· == ' ')).takeWhile (· != ' ')

def maxArgs : Nat := 16

inductive Command where
  | cmdRun | cmdStep | cmdState | cmdMem | cmdWrite | cmdReset | cmdLoad | cmdBreak | cmdNext
  | cmdSave | cmdReload | cmdDisassemble | cmdScript
  deriving DecidableEq

def commands : List (String × Command) :=
  [("run", .cmdRun),
   ("step", .cmdStep),
   ("state", .cmdState),
   ("mem", .cmdMem),
   ("write", .cmdWrite),
   ("reset", .cmdReset),
   ("load", .cmdLoad),
   ("break", .cmdBreak),
   ("next", .cmdNext),
   ("save", .cmdSave),
   ("reload", .cmdReload),
   ("disassemble", .cmdDisassemble),
   ("script", .cmdScript)]

/-- The command that `strcmp` finds. -/
def commandOf (name : List Char) : Option Command :=
  (commands.find? fun command => command.1.toList == name).map Prod.snd

/-- The loop of `cmd_run`: what it returns with in so many turns. -/
def runLoop (breakpoints : Breakpoints) : Nat → Vm → Option Vm
  | 0, _ => none
  | turns + 1, vm =>
    if isBreakpoint breakpoints vm.cpu.pc then some (disassembleLine vm vm.cpu.pc).1
    else runLoop breakpoints turns (cpuStep vm)

/-- The loop of `cmd_next`. -/
def nextLoop (targetAddr : BitVec 64) : Nat → Vm → Option Vm
  | 0, _ => none
  | turns + 1, vm =>
    if vm.cpu.pc = targetAddr then some vm
    else nextLoop targetAddr turns (cpuStep vm)

/-- A `JAL` or `JALR` that links to `x1` or `x5`. -/
def isCall (instruction : BitVec 32) : Bool :=
  let opcode := Opcode.ofRaw (opcodeOf instruction)
  let rd := (decodeJ instruction).rd
  (opcode == some .jal || opcode == some .jalr) && (rd == 1 || rd == 5)

def cmdNext (turns : Nat) (vm : Vm) : Option Vm :=
  match cpuFetch vm with
  | (vm, none) => some vm
  | (vm, some instruction) =>
    if isCall instruction then nextLoop (vm.cpu.pc + 4) turns vm else some vm

def cmdWrite (vm : Vm) (argv : List String) : Vm :=
  match argv[1]?, argv[2]? with
  | some arg, some arg' =>
    match numberArg arg, numberArg arg' with
    | some addr, some value => { vm with bus := vmBusWrite64 vm.bus addr value }
    | _, _ => vm
  | _, _ => vm

def cmdReset (vm : Vm) : Vm := { vm with cpu := cpuReset vm.cpu ramBase }

/-- `none` is a write behind the table. -/
def cmdBreak (breakpoints : Breakpoints) (argv : List String) : Option Breakpoints :=
  match argv[1]?.bind numberArg with
  | none => some breakpoints
  | some addr => addBreakpoint breakpoints addr

def saveDump : String := "save.dump"

/-- The bytes of the whole RAM, as `fwrite` writes them. -/
def fwriteRam (ram : Memory) : List (BitVec 8) :=
  (List.range ramSize.toNat).map fun i => ram.mem (BitVec.ofNat 64 i)

/-- `fread` of up to `RAM_SIZE` bytes into the RAM. -/
def freadRam (ram : Memory) (file : List (BitVec 8)) : Memory :=
  { mem := fun idx => if idx < ramSize then file[idx.toNat]?.getD (ram.mem idx) else ram.mem idx }

def Files.write (files : Files) (path : String) (bytes : List (BitVec 8)) : Files :=
  { files with contents := fun name =>
      if name = files.names path then some bytes else files.contents name }

/-- A stream that could not be opened is null, which `fwrite` does not take. -/
def cmdSave (session : Session) : Except Stop Session :=
  if session.files.writable then
    .ok { session with
      files := session.files.write saveDump (fwriteRam session.vm.bus.ram) }
  else .error .undefined

def cmdReload (session : Session) : Except Stop Session :=
  match session.files.fopen saveDump with
  | none => .error .undefined
  | some file =>
    let bus := { session.vm.bus with ram := freadRam session.vm.bus.ram file }
    .ok { session with vm := { cpu := cpuReset session.vm.cpu ramBase, bus := bus } }

/-- What a line that `cmd_script` has read says, without its last character. A
line that begins with NUL has none, and the byte before the buffer is written. -/
def scriptText (line : List (BitVec 8)) : Option (List Char) :=
  match line.takeWhile (· != 0) with
  | [] => none
  | c :: rest => some ((c :: rest).dropLast.map charOf)

/-- What a line that `cli_run` has read says: `strcspn` stops at NUL too. -/
def inputText (line : List (BitVec 8)) : List Char :=
  ((line.takeWhile (· != 0)).takeWhile (· != newline)).map charOf

/-- The session after a line, and whether to go on. -/
abbrev Dispatch := Session → List Char → Except Stop (Session × Bool)

/-- One turn of the loop of `cmd_script`, which goes on in any case. Once a line
has changed the file that is read, its buffering decides what `fgets` gets. -/
def scriptLine (dispatch : Dispatch) (path : String) (file : List (BitVec 8)) (session : Session)
    (line : List (BitVec 8)) : Except Stop Session :=
  match scriptText line with
  | none => .error .undefined
  | some buffer => do
    let (session, _) ← dispatch session buffer
    if session.files.fopen path = some file then return session else .error .undefined

def cmdScript (dispatch : Dispatch) (session : Session) (argv : List String) :
    Except Stop Session :=
  match argv[1]? with
  | none => .ok session
  | some path =>
    match session.files.fopen path with
    | none => .ok session
    | some file => (linesOf 256 file).foldlM (scriptLine dispatch path file) session

/-- A loop that has not returned yet has no machine. -/
def Session.ranTo (session : Session) : Option Vm → Except Stop Session
  | none => .error .outOfFuel
  | some vm => .ok { session with vm := vm }

/-- `commands[i].function(vm, argc, argv)`. -/
def callCommand (dispatch : Dispatch) (turns : Nat) (session : Session) (argv : List String) :
    Command → Except Stop Session
  | .cmdRun => session.ranTo (runLoop session.breakpoints turns session.vm)
  | .cmdStep => .ok { session with vm := cmdStep session.vm argv }
  | .cmdState => .ok { session with vm := cmdState session.vm }
  | .cmdMem => .ok { session with vm := cmdMem session.vm argv }
  | .cmdWrite => .ok { session with vm := cmdWrite session.vm argv }
  | .cmdReset => .ok { session with vm := cmdReset session.vm }
  | .cmdLoad =>
    match cmdLoad session.files.fopen session.vm argv with
    | none => .error .undefined
    | some (vm, _) => .ok { session with vm := vm }
  | .cmdBreak =>
    match cmdBreak session.breakpoints argv with
    | none => .error .undefined
    | some breakpoints => .ok { session with breakpoints := breakpoints }
  | .cmdNext => session.ranTo (cmdNext turns session.vm)
  | .cmdSave => cmdSave session
  | .cmdReload => cmdReload session
  | .cmdDisassemble => .ok { session with vm := cmdDisassemble session.vm argv }
  | .cmdScript => cmdScript dispatch session argv

/-- `dispatch_command`, with fuel for the scripts within scripts and for the
loops of `run` and `next`. A token too many is written behind `argv`. -/
def dispatchCommand : Nat → Dispatch
  | 0, _, _ => .error .outOfFuel
  | fuel + 1, session, buffer =>
    let argv := argvOf buffer
    if maxArgs < argv.length then .error .undefined
    else if bufferAfter buffer = "exit".toList then .ok (session, false)
    else
      match commandOf (bufferAfter buffer) with
      -- assumes that `printf` takes the null `argv[0]` of an empty line for its `%s`
      | none => .ok (session, true)
      | some command => do
        let argv := argv.map String.ofList
        let session ← callCommand (dispatchCommand fuel) fuel session argv command
        return (session, true)

/-- The loop of `cli_run` over the lines it reads. -/
def cliLoop (dispatch : Dispatch) (session : Session) :
    List (List (BitVec 8)) → Except Stop (Session × BitVec 8)
  | [] => .ok (session, -1)
  | line :: rest => do
    let (session, goOn) ← dispatch session (inputText line)
    if goOn then cliLoop dispatch session rest else return (session, 0)

/-- The session at the end and what is returned, for all that is typed. -/
def cliRun (fuel : Nat) (session : Session) (stdin : List (BitVec 8)) :
    Except Stop (Session × BitVec 8) :=
  cliLoop (dispatchCommand fuel) session (linesOf 1024 stdin)

/-- What `main` of the debugger sets up, over any memory. -/
def debuggerInit (ram : Memory) (files : Files) : Session :=
  { vm := { vmInit ram with cpu := { (vmInit ram).cpu with priviledge := uMode } }
    breakpoints := noBreakpoints
    files := files }

end RiscvVm
