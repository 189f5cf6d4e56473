import RiscvVm.Lib.Program

/-!
Programs of RV64IM beside a device: the single bytes of its window are its
registers, and all else is memory. Between two instructions the device goes on
by itself, with what comes from outside.
-/

namespace Rv64im
open Rv64i

/-- A device with its registers. Reading one may change the device as well. -/
structure Device (δ ε : Type) where
  window : BitVec 64 → Bool
  read : δ → BitVec 64 → δ × BitVec 8
  write : δ → BitVec 64 → BitVec 8 → δ
  turn : δ → ε → δ

/-- What a load makes of a single byte. -/
def byteValue (op : LoadOp) (byte : BitVec 8) : BitVec 64 :=
  if op.signed then wrap byte.toInt else wrap byte.toNat

namespace Device
variable {δ ε : Type} (dev : Device δ ε)

/-- The hart and the device after an instruction. -/
def exec (x : State × δ) : Instr → State × δ
  | .base (.load op rd rs1 imm) =>
    let addr := x.1.regs rs1 + wrap imm.toInt
    if dev.window addr then
      let (device, byte) := dev.read x.2 addr
      ((x.1.set rd (byteValue op byte)).jump (x.1.pc + 4), device)
    else (Rv64im.exec id x.1 (.base (.load op rd rs1 imm)), x.2)
  | .base (.store op rs1 rs2 imm) =>
    let addr := x.1.regs rs1 + wrap imm.toInt
    if dev.window addr then
      (x.1.jump (x.1.pc + 4), dev.write x.2 addr ((x.1.regs rs2).setWidth 8))
    else (Rv64im.exec id x.1 (.base (.store op rs1 rs2 imm)), x.2)
  | i => (Rv64im.exec id x.1 i, x.2)

/-- An instruction, and then the device by itself. -/
def step (x : State × δ) (t : Instr × ε) : State × δ :=
  ((dev.exec x t.1).1, dev.turn (dev.exec x t.1).2 t.2)

/-- What is not in the window is allowed, and of the device a single byte. -/
structure Within (ok : BitVec 64 → Nat → Prop) (s : State) (i : Instr) : Prop where
  fetched : ok s.pc 4
  accessed : ∀ a, i.access s = some a →
    if dev.window a.addr then a.bytes = 1 else ok a.addr a.bytes

/-- The program in the memory of `x`, with the device beside it, runs through
these instructions, and in between there come these inputs. -/
def Traces (ok : BitVec 64 → Nat → Prop) (meets : State → Instr → Prop) :
    State × δ → List (Instr × ε) → Prop :=
  Past.Along dev.step fun x t =>
    fetch id x.1 = t.1.encode ∧ dev.Within ok x.1 t.1 ∧ meets x.1 t.1

variable {dev} {x : State × δ} {i : Instr}

/-- What does not access the device leaves it alone. -/
theorem exec_memory (h : ∀ a, i.access x.1 = some a → dev.window a.addr = false) :
    dev.exec x i = (Rv64im.exec id x.1 i, x.2) := by
  cases i with
  | word => rfl
  | mul => rfl
  | base i =>
    cases i with
    | load op rd rs1 imm => simp [exec, h _ rfl]
    | store op rs1 rs2 imm => simp [exec, h _ rfl]
    | _ => rfl

theorem Within.memory {ok : BitVec 64 → Nat → Prop} {s : State} (h : dev.Within ok s i)
    (hout : ∀ a, i.access s = some a → dev.window a.addr = false) : Rv64im.Within ok s i := by
  refine ⟨h.fetched, fun a ha => ?_⟩
  have hok := h.accessed a ha
  rw [hout a ha] at hok
  exact hok

end Device

end Rv64im
