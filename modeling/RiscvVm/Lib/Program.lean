import RiscvVm.Lib.Rv64im
import RiscvVm.Lib.Runs

/-!
Programs of RV64IM in the memory they run in: a hart that fetches each
instruction from memory as it is by then, so that a program may change itself.
Every byte is found at the place of its address.
-/

namespace Rv64im
open Rv64i

/-- The instructions of RV64I, its word operations and the M extension. -/
inductive Instr
  | base (i : Rv64i.Instr)
  | word (i : WordInstr)
  | mul (op : MOp) (rd rs1 rs2 : BitVec 5)

def Instr.encode : Instr → BitVec 32
  | .base i => Rv64i.encode i
  | .word i => i.encode
  | .mul op rd rs1 rs2 => op.encode rd rs1 rs2

/-- What an instruction asks of memory. -/
def Instr.access (s : State) : Instr → Option Access
  | .base i => Rv64i.access s.regs i
  | _ => none

def exec (place : BitVec 64 → BitVec 64) (s : State) : Instr → State
  | .base i => Rv64i.exec place s i
  | .word i => (s.set i.rd (i.value s.regs)).jump (s.pc + 4)
  | .mul op rd rs1 rs2 => (s.set rd (op.eval (s.regs rs1) (s.regs rs2))).jump (s.pc + 4)

def fetch (place : BitVec 64 → BitVec 64) (s : State) : BitVec 32 :=
  ByteMap.read 32 (fun a => s.mem (place a)) s.pc 4

/-- Where the instruction is fetched from and what it accesses is allowed. -/
structure Within (ok : BitVec 64 → Nat → Prop) (s : State) (i : Instr) : Prop where
  fetched : ok s.pc 4
  accessed : ∀ a, i.access s = some a → ok a.addr a.bytes

/-- The run of the program in the memory of `s` is these instructions, all of
them with allowed accesses and in states that meet a condition. -/
def Traces (place : BitVec 64 → BitVec 64) (ok : BitVec 64 → Nat → Prop)
    (meets : State → Instr → Prop) (s : State) (instrs : List Instr) : Prop :=
  Past.Along (exec place) (fun s i => fetch place s = i.encode ∧ Within ok s i ∧ meets s i) s instrs

/-- Two harts that differ in hidden memory only. -/
structure Agree (hidden : BitVec 64 → Prop) (s s' : State) : Prop where
  regs : s'.regs = s.regs
  pc : s'.pc = s.pc
  mem : ∀ x, ¬ hidden x → s'.mem x = s.mem x

section
variable {hidden : BitVec 64 → Prop} {place : BitVec 64 → BitVec 64} {s s' : State}

theorem Agree.trans {s'' : State} (h : Agree hidden s s') (g : Agree hidden s' s'') :
    Agree hidden s s'' :=
  ⟨g.regs.trans h.regs, g.pc.trans h.pc, fun x hx => (g.mem x hx).trans (h.mem x hx)⟩

theorem Agree.access_eq (h : Agree hidden s s') (i : Instr) : i.access s' = i.access s := by
  cases i with
  | base i => rw [Instr.access, Instr.access, h.regs]
  | word => rfl
  | mul => rfl

theorem Agree.set (h : Agree hidden s s') (rd : BitVec 5) (value target : BitVec 64) :
    Agree hidden ((s.set rd value).jump target) ((s'.set rd value).jump target) := by
  refine ⟨funext fun r => ?_, rfl, h.mem⟩
  simp only [State.jump, State.set, h.regs]

theorem Agree.read (h : Agree hidden s s') {w n : Nat} {addr : BitVec 64}
    (hseen : ∀ k < n, ¬ hidden (place (addr + BitVec.ofNat 64 k))) :
    ByteMap.read w (fun a => s'.mem (place a)) addr n =
      ByteMap.read w (fun a => s.mem (place a)) addr n :=
  ByteMap.read_congr fun k hk => h.mem _ (hseen k hk)

/-- A value that is stored covers what it is stored to, whatever was there. -/
theorem store_bytes_agree {m m' : BitVec 64 → BitVec 8} (h : ∀ x, ¬ hidden x → m' x = m x)
    (addr value : BitVec 64) (n : Nat) {x : BitVec 64} (hx : ¬ hidden x) :
    storeBytes place m' addr value n x = storeBytes place m addr value n x := by
  induction n with
  | zero => exact h x hx
  | succ n ih => simp only [storeBytes, ih]

/-- Harts that agree do so after an instruction that loads nothing hidden. -/
theorem Agree.exec (h : Agree hidden s s') (i : Instr)
    (hseen : ∀ a, i.access s = some a → ∀ k < a.bytes,
      ¬ hidden (place (a.addr + BitVec.ofNat 64 k))) :
    Agree hidden (Rv64im.exec place s i) (Rv64im.exec place s' i) := by
  have hregs := h.regs
  have hpc := h.pc
  cases i with
  | word i =>
    rw [Rv64im.exec, Rv64im.exec, hregs, hpc]
    exact h.set _ _ _
  | mul op rd rs1 rs2 =>
    rw [Rv64im.exec, Rv64im.exec, hregs, hpc]
    exact h.set _ _ _
  | base i =>
    rw [Rv64im.exec, Rv64im.exec]
    cases i with
    | branch cond rs1 rs2 imm =>
      simp only [Rv64i.exec, hregs, hpc]
      exact ⟨hregs, rfl, h.mem⟩
    | load op rd rs1 imm =>
      have hvalue : op.value place s'.mem (s.regs rs1 + wrap imm.toInt) =
          op.value place s.mem (s.regs rs1 + wrap imm.toInt) := by
        unfold LoadOp.value
        rw [h.read (hseen _ rfl)]
      simp only [Rv64i.exec, hregs, hpc, hvalue]
      exact h.set _ _ _
    | store op rs1 rs2 imm =>
      simp only [Rv64i.exec, hregs, hpc]
      exact ⟨hregs, rfl, fun x hx => store_bytes_agree h.mem _ _ _ hx⟩
    | _ =>
      simp only [Rv64i.exec, hregs, hpc]
      exact h.set _ _ _

end

end Rv64im
