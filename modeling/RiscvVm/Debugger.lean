import RiscvVm.Machine

/-!
The commands of the debugger, as far as they act on the machine: what they
print is left out.
-/

namespace RiscvVm

def isSpace (c : Char) : Bool := c == ' ' || (9 ≤ c.toNat && c.toNat ≤ 13)

/-- The value of a digit in this base. -/
def digitOf (base : Nat) (c : Char) : Option Nat :=
  let digit :=
    if '0' ≤ c ∧ c ≤ '9' then c.toNat - '0'.toNat
    else if 'a' ≤ c ∧ c ≤ 'z' then c.toNat - 'a'.toNat + 10
    else if 'A' ≤ c ∧ c ≤ 'Z' then c.toNat - 'A'.toNat + 10
    else base
  if digit < base then some digit else none

/-- The number that the leading digits make, and what comes after them. -/
def digits (base number : Nat) : List Char → Nat × List Char
  | [] => (number, [])
  | c :: rest =>
    match digitOf base c with
    | none => (number, c :: rest)
    | some digit => digits base (base * number + digit) rest

/-- The base that `strtoll` finds out when it is given 0, and the text after
the prefix that tells it. -/
def baseOf : List Char → Nat × List Char
  | '0' :: x :: c :: rest =>
    if (x = 'x' ∨ x = 'X') ∧ (digitOf 16 c).isSome then (16, c :: rest)
    else (8, '0' :: x :: c :: rest)
  | '0' :: rest => (8, '0' :: rest)
  | s => (10, s)

/-- `strtoll(s, &end, 0)`, and `strtol`, where `long` has 64 bits: the number and
the text from `end` on. -/
def strtoll (s : List Char) : BitVec 64 × List Char :=
  let (negative, body) :=
    match s.dropWhile isSpace with
    | '-' :: rest => (true, rest)
    | '+' :: rest => (false, rest)
    | rest => (false, rest)
  let (base, body) := baseOf body
  if (body.head?.bind (digitOf base)).isNone then (0, s)
  else
    let (number, rest) := digits base 0 body
    if negative then
      (if number ≤ 0x8000000000000000 then -BitVec.ofNat 64 number else 0x8000000000000000, rest)
    else
      (if number ≤ 0x7FFFFFFFFFFFFFFF then BitVec.ofNat 64 number else 0x7FFFFFFFFFFFFFFF, rest)

/-- An argument that is a number to its end. -/
def numberArg (arg : String) : Option (BitVec 64) :=
  match strtoll arg.toList with
  | (number, []) => some number
  | _ => none

/-- An optional count, which is 1 where it is not given. -/
def countArg : Option String → Option (BitVec 32)
  | none => some 1
  | some arg => (numberArg arg).map (·.setWidth 32)

/-- `disassemble_line`: the machine after it, and the word it writes down. -/
def disassembleLine (vm : Vm) (addr : BitVec 64) : Vm × BitVec 32 :=
  let (bus, word) := vmBusRead .w32 vm.bus addr
  ({ vm with bus := bus }, word.setWidth 32)

def disassembleLoop : Nat → Vm → BitVec 64 → Vm
  | 0, vm, _ => vm
  | lines + 1, vm, addr => disassembleLoop lines (disassembleLine vm addr).1 (addr + 4)

def cmdDisassemble (vm : Vm) (argv : List String) : Vm :=
  match argv[1]?.bind numberArg with
  | none => vm
  | some addr =>
    match countArg argv[2]? with
    | none => vm
    | some lines => disassembleLoop lines.toNat vm addr

def cmdState (vm : Vm) : Vm :=
  let (vm, _) := cpuFetch vm
  (disassembleLine vm vm.cpu.pc).1

def cmdMem (vm : Vm) (argv : List String) : Vm :=
  match argv[1]?.bind numberArg with
  | none => vm
  | some addr => { vm with bus := (vmBusRead .w64 vm.bus addr).1 }

def stepLoop : Nat → Vm → Vm
  | 0, vm => vm
  | steps + 1, vm => stepLoop steps (cpuStep (disassembleLine vm vm.cpu.pc).1)

def cmdStep (vm : Vm) (argv : List String) : Vm :=
  match countArg argv[1]? with
  | none => vm
  | some steps => stepLoop steps.toNat vm

def maxBreakpoints : Nat := 64

/-- `breakpoint_table` and `breakpoint_count`, which is never past the table's end. -/
structure Breakpoints where
  table : Nat → BitVec 64
  count : BitVec 8
  bounded : count.toNat ≤ maxBreakpoints

/-- The breakpoints before any is added. -/
def noBreakpoints : Breakpoints :=
  { table := fun _ => 0, count := 0, bounded := by decide }

/-- Nothing is refused or reported: with the table full the call writes behind it. -/
def addBreakpoint (breakpoints : Breakpoints) (addr : BitVec 64) : Option Breakpoints :=
  if h : breakpoints.count.toNat < maxBreakpoints then
    some
      { table := fun i => if i = breakpoints.count.toNat then addr else breakpoints.table i
        count := breakpoints.count + 1
        bounded := by
          have hone : (1 : BitVec 8).toNat = 1 := rfl
          rw [BitVec.toNat_add, hone]
          omega }
  else none

def isBreakpoint (breakpoints : Breakpoints) (pc : BitVec 64) : Bool :=
  (List.range breakpoints.count.toNat).any fun i => breakpoints.table i == pc

/-- The indices of the table that `is_breakpoint` reads, of these. -/
def readIndices (breakpoints : Breakpoints) (pc : BitVec 64) : List Nat → List Nat
  | [] => []
  | i :: rest =>
    if breakpoints.table i == pc then [i]
    else i :: readIndices breakpoints pc rest

/-- `cmd_run` after so many turns of its loop, if it has not returned before. -/
def cmdRun (breakpoints : Breakpoints) : Nat → Vm → Vm
  | 0, vm => vm
  | turns + 1, vm =>
    if isBreakpoint breakpoints vm.cpu.pc then (disassembleLine vm vm.cpu.pc).1
    else cmdRun breakpoints turns (cpuStep vm)

end RiscvVm
