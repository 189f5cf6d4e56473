import RiscvVm.Lib.ByteMap
import Mathlib.Algebra.Group.Int.Defs

/-!
The computational instructions, jumps, branches, loads and stores of RV64I:
how they are encoded and what they do to the registers, the pc and a memory
of bytes. Arithmetic is on numbers, taken modulo 2^64.
-/

namespace Rv64i

inductive RegOp
  | add
  | sub
  | sll
  | slt
  | sltu
  | xor
  | srl
  | sra
  | or
  | and

inductive ImmOp
  | addi
  | slti
  | sltiu
  | xori
  | ori
  | andi

inductive ShiftOp
  | slli
  | srli
  | srai

inductive Cond
  | eq
  | ne
  | lt
  | ge
  | ltu
  | geu

inductive LoadOp
  | lb
  | lh
  | lw
  | ld
  | lbu
  | lhu
  | lwu

inductive StoreOp
  | sb
  | sh
  | sw
  | sd

/-- Branch and jump offsets are given without their lowest bit, which is zero. -/
inductive Instr
  | lui (rd : BitVec 5) (imm : BitVec 20)
  | auipc (rd : BitVec 5) (imm : BitVec 20)
  | jal (rd : BitVec 5) (imm : BitVec 20)
  | jalr (rd rs1 : BitVec 5) (imm : BitVec 12)
  | branch (cond : Cond) (rs1 rs2 : BitVec 5) (imm : BitVec 12)
  | load (op : LoadOp) (rd rs1 : BitVec 5) (imm : BitVec 12)
  | store (op : StoreOp) (rs1 rs2 : BitVec 5) (imm : BitVec 12)
  | immediate (op : ImmOp) (rd rs1 : BitVec 5) (imm : BitVec 12)
  | shift (op : ShiftOp) (rd rs1 : BitVec 5) (shamt : BitVec 6)
  | register (op : RegOp) (rd rs1 rs2 : BitVec 5)

def rFormat (funct7 : BitVec 7) (rs2 rs1 : BitVec 5) (funct3 : BitVec 3) (rd : BitVec 5)
    (opcode : BitVec 7) : BitVec 32 :=
  (funct7 ++ rs2 ++ rs1 ++ funct3 ++ rd ++ opcode).cast rfl

def iFormat (imm : BitVec 12) (rs1 : BitVec 5) (funct3 : BitVec 3) (rd : BitVec 5)
    (opcode : BitVec 7) : BitVec 32 :=
  (imm ++ rs1 ++ funct3 ++ rd ++ opcode).cast rfl

def sFormat (imm : BitVec 12) (rs2 rs1 : BitVec 5) (funct3 : BitVec 3) (opcode : BitVec 7) :
    BitVec 32 :=
  (imm.extractLsb' 5 7 ++ rs2 ++ rs1 ++ funct3 ++ imm.extractLsb' 0 5 ++ opcode).cast rfl

/-- `imm` is bits 12:1 of the offset. -/
def bFormat (imm : BitVec 12) (rs2 rs1 : BitVec 5) (funct3 : BitVec 3) (opcode : BitVec 7) :
    BitVec 32 :=
  (imm.extractLsb' 11 1 ++ imm.extractLsb' 4 6 ++ rs2 ++ rs1 ++ funct3 ++ imm.extractLsb' 0 4 ++
    imm.extractLsb' 10 1 ++ opcode).cast rfl

def uFormat (imm : BitVec 20) (rd : BitVec 5) (opcode : BitVec 7) : BitVec 32 :=
  (imm ++ rd ++ opcode).cast rfl

/-- `imm` is bits 20:1 of the offset. -/
def jFormat (imm : BitVec 20) (rd : BitVec 5) (opcode : BitVec 7) : BitVec 32 :=
  (imm.extractLsb' 19 1 ++ imm.extractLsb' 0 10 ++ imm.extractLsb' 10 1 ++ imm.extractLsb' 11 8 ++
    rd ++ opcode).cast rfl

def RegOp.funct3 : RegOp → BitVec 3
  | .add | .sub => 0
  | .sll => 1
  | .slt => 2
  | .sltu => 3
  | .xor => 4
  | .srl | .sra => 5
  | .or => 6
  | .and => 7

def RegOp.funct7 : RegOp → BitVec 7
  | .sub | .sra => 0b0100000
  | _ => 0

def ImmOp.funct3 : ImmOp → BitVec 3
  | .addi => 0
  | .slti => 2
  | .sltiu => 3
  | .xori => 4
  | .ori => 6
  | .andi => 7

def ShiftOp.funct3 : ShiftOp → BitVec 3
  | .slli => 1
  | .srli | .srai => 5

def ShiftOp.funct6 : ShiftOp → BitVec 6
  | .srai => 0b010000
  | _ => 0

def Cond.funct3 : Cond → BitVec 3
  | .eq => 0
  | .ne => 1
  | .lt => 4
  | .ge => 5
  | .ltu => 6
  | .geu => 7

def LoadOp.funct3 : LoadOp → BitVec 3
  | .lb => 0
  | .lh => 1
  | .lw => 2
  | .ld => 3
  | .lbu => 4
  | .lhu => 5
  | .lwu => 6

def StoreOp.funct3 : StoreOp → BitVec 3
  | .sb => 0
  | .sh => 1
  | .sw => 2
  | .sd => 3

def encode : Instr → BitVec 32
  | .lui rd imm => uFormat imm rd 0b0110111
  | .auipc rd imm => uFormat imm rd 0b0010111
  | .jal rd imm => jFormat imm rd 0b1101111
  | .jalr rd rs1 imm => iFormat imm rs1 0 rd 0b1100111
  | .branch cond rs1 rs2 imm => bFormat imm rs2 rs1 cond.funct3 0b1100011
  | .load op rd rs1 imm => iFormat imm rs1 op.funct3 rd 0b0000011
  | .store op rs1 rs2 imm => sFormat imm rs2 rs1 op.funct3 0b0100011
  | .immediate op rd rs1 imm => iFormat imm rs1 op.funct3 rd 0b0010011
  | .shift op rd rs1 shamt => iFormat (op.funct6 ++ shamt) rs1 op.funct3 rd 0b0010011
  | .register op rd rs1 rs2 => rFormat op.funct7 rs2 rs1 op.funct3 rd 0b0110011

/-- The value of a signed number modulo 2^64. -/
def wrap (n : Int) : BitVec 64 := BitVec.ofInt 64 n

def flag (p : Prop) [Decidable p] : BitVec 64 := if p then 1 else 0

def RegOp.eval : RegOp → BitVec 64 → BitVec 64 → BitVec 64
  | .add, x, y => wrap (x.toNat + y.toNat)
  | .sub, x, y => wrap (x.toNat - y.toNat)
  | .sll, x, y => wrap (x.toNat * 2 ^ (y.toNat % 64))
  | .slt, x, y => flag (x.toInt < y.toInt)
  | .sltu, x, y => flag (x.toNat < y.toNat)
  | .xor, x, y => x ^^^ y
  | .srl, x, y => wrap (x.toNat / 2 ^ (y.toNat % 64))
  | .sra, x, y => wrap (x.toInt / 2 ^ (y.toNat % 64))
  | .or, x, y => x ||| y
  | .and, x, y => x &&& y

/-- The register operation an immediate operation is. -/
def ImmOp.regOp : ImmOp → RegOp
  | .addi => .add
  | .slti => .slt
  | .sltiu => .sltu
  | .xori => .xor
  | .ori => .or
  | .andi => .and

def ShiftOp.regOp : ShiftOp → RegOp
  | .slli => .sll
  | .srli => .srl
  | .srai => .sra

def Cond.Holds : Cond → BitVec 64 → BitVec 64 → Prop
  | .eq, x, y => x = y
  | .ne, x, y => x ≠ y
  | .lt, x, y => x.toInt < y.toInt
  | .ge, x, y => y.toInt ≤ x.toInt
  | .ltu, x, y => x.toNat < y.toNat
  | .geu, x, y => y.toNat ≤ x.toNat

instance (cond : Cond) (x y : BitVec 64) : Decidable (cond.Holds x y) :=
  match cond with
  | .eq => inferInstanceAs (Decidable (x = y))
  | .ne => inferInstanceAs (Decidable (x ≠ y))
  | .lt => inferInstanceAs (Decidable (x.toInt < y.toInt))
  | .ge => inferInstanceAs (Decidable (y.toInt ≤ x.toInt))
  | .ltu => inferInstanceAs (Decidable (x.toNat < y.toNat))
  | .geu => inferInstanceAs (Decidable (y.toNat ≤ x.toNat))

def LoadOp.bytes : LoadOp → Nat
  | .lb | .lbu => 1
  | .lh | .lhu => 2
  | .lw | .lwu => 4
  | .ld => 8

def LoadOp.signed : LoadOp → Bool
  | .lb | .lh | .lw | .ld => true
  | .lbu | .lhu | .lwu => false

def StoreOp.bytes : StoreOp → Nat
  | .sb => 1
  | .sh => 2
  | .sw => 4
  | .sd => 8

/-- What an instruction asks of memory. -/
structure Access where
  store : Bool
  addr : BitVec 64
  bytes : Nat

/-- The state of the hart. `x0` is zero by construction, and memory is that of
physical addresses. -/
structure State where
  regs : BitVec 5 → BitVec 64
  zero : regs 0 = 0
  pc : BitVec 64
  mem : BitVec 64 → BitVec 8

def access (regs : BitVec 5 → BitVec 64) : Instr → Option Access
  | .load op _ rs1 imm =>
    some { store := false, addr := regs rs1 + wrap imm.toInt, bytes := op.bytes }
  | .store op rs1 _ imm =>
    some { store := true, addr := regs rs1 + wrap imm.toInt, bytes := op.bytes }
  | _ => none

def State.set (s : State) (rd : BitVec 5) (value : BitVec 64) : State :=
  { s with
    regs := fun r => if r = rd ∧ rd ≠ 0 then value else s.regs r
    zero := by
      rw [if_neg fun h => h.2 h.1.symm]
      exact s.zero }

def State.jump (s : State) (target : BitVec 64) : State := { s with pc := target }

/-- The value a load makes of the bytes at `addr`, each found at its place. -/
def LoadOp.value (op : LoadOp) (place : BitVec 64 → BitVec 64) (mem : BitVec 64 → BitVec 8)
    (addr : BitVec 64) : BitVec 64 :=
  let bits : BitVec (8 * op.bytes) := ByteMap.read _ (fun a => mem (place a)) addr op.bytes
  if op.signed then wrap bits.toInt else wrap bits.toNat

/-- Memory after `n` bytes of a value have been put at `addr`, each at its
place. -/
def storeBytes (place : BitVec 64 → BitVec 64) (mem : BitVec 64 → BitVec 8)
    (addr value : BitVec 64) : Nat → BitVec 64 → BitVec 8
  | 0 => mem
  | n + 1 => fun x =>
    if x = place (addr + BitVec.ofNat 64 n) then ByteMap.byte value n
    else storeBytes place mem addr value n x

/-- The instruction executed, where `place` translates the addresses of bytes.
A jump goes to its target whatever the alignment of that. -/
def exec (place : BitVec 64 → BitVec 64) (s : State) : Instr → State
  | .lui rd imm => (s.set rd (wrap (imm.toInt * 2 ^ 12))).jump (s.pc + 4)
  | .auipc rd imm => (s.set rd (s.pc + wrap (imm.toInt * 2 ^ 12))).jump (s.pc + 4)
  | .jal rd imm => (s.set rd (s.pc + 4)).jump (s.pc + wrap (imm.toInt * 2))
  | .jalr rd rs1 imm =>
    (s.set rd (s.pc + 4)).jump (wrap ((s.regs rs1 + wrap imm.toInt).toNat / 2 * 2))
  | .branch cond rs1 rs2 imm =>
    s.jump (if cond.Holds (s.regs rs1) (s.regs rs2) then s.pc + wrap (imm.toInt * 2) else s.pc + 4)
  | .load op rd rs1 imm =>
    (s.set rd (op.value place s.mem (s.regs rs1 + wrap imm.toInt))).jump (s.pc + 4)
  | .store op rs1 rs2 imm =>
    { s.jump (s.pc + 4) with
      mem := storeBytes place s.mem (s.regs rs1 + wrap imm.toInt) (s.regs rs2) op.bytes }
  | .immediate op rd rs1 imm =>
    (s.set rd (op.regOp.eval (s.regs rs1) (wrap imm.toInt))).jump (s.pc + 4)
  | .shift op rd rs1 shamt =>
    (s.set rd (op.regOp.eval (s.regs rs1) (shamt.setWidth 64))).jump (s.pc + 4)
  | .register op rd rs1 rs2 =>
    (s.set rd (op.eval (s.regs rs1) (s.regs rs2))).jump (s.pc + 4)

theorem wrap_nat (n : Nat) : wrap n = BitVec.ofNat 64 n := BitVec.ofInt_natCast 64 n

theorem wrap_imm {n : Nat} (imm : BitVec n) : wrap imm.toInt = imm.signExtend 64 := rfl

/-- An offset is the sign extension of its immediate with the zeros put back. -/
theorem wrap_offset {n : Nat} (imm : BitVec n) (k : Nat) :
    wrap (imm.toInt * 2 ^ k) = (imm ++ 0#k).signExtend 64 := by
  rw [BitVec.signExtend, BitVec.toInt_append_zero, Int.mul_comm]
  rfl

theorem wrap_even (x : BitVec 64) : wrap (x.toNat / 2 * 2) = x &&& ~~~1#64 := by
  have hnat : ((x.toNat : Int) / 2 * 2) = ((x.toNat / 2 * 2 : Nat) : Int) := by omega
  have hhalf : x &&& ~~~1#64 = (x >>> 1) <<< 1 := by
    apply BitVec.eq_of_getLsbD_eq
    intro i hi
    simp only [BitVec.getLsbD_and, BitVec.getLsbD_not, BitVec.getLsbD_one,
      BitVec.getLsbD_shiftLeft, BitVec.getLsbD_ushiftRight]
    grind
  rw [hnat, wrap_nat, hhalf]
  apply BitVec.eq_of_toNat_eq
  rw [BitVec.toNat_ofNat, BitVec.toNat_shiftLeft, BitVec.toNat_ushiftRight, Nat.shiftLeft_eq,
    Nat.shiftRight_eq_div_pow]

section
variable (x y : BitVec 64)

theorem eval_add : RegOp.eval .add x y = x + y := by
  show wrap (x.toNat + y.toNat) = x + y
  rw [← Int.natCast_add, wrap_nat]
  apply BitVec.eq_of_toNat_eq
  rw [BitVec.toNat_ofNat, BitVec.toNat_add]

theorem eval_sub : RegOp.eval .sub x y = x - y := by
  apply BitVec.eq_of_toNat_eq
  have hx := x.isLt
  have hy := y.isLt
  rw [RegOp.eval, wrap, BitVec.toNat_ofInt, BitVec.toNat_sub]
  omega

theorem eval_sll : RegOp.eval .sll x y = x <<< (y.toNat % 64) := by
  have hnat : (x.toNat * 2 ^ (y.toNat % 64) : Int) =
      ((x.toNat * 2 ^ (y.toNat % 64) : Nat) : Int) := by
    rw [Int.natCast_mul, Int.natCast_pow]
    rfl
  rw [RegOp.eval, hnat, wrap_nat]
  apply BitVec.eq_of_toNat_eq
  rw [BitVec.toNat_ofNat, BitVec.toNat_shiftLeft, Nat.shiftLeft_eq]

theorem eval_srl : RegOp.eval .srl x y = x >>> (y.toNat % 64) := by
  have hnat : (x.toNat / 2 ^ (y.toNat % 64) : Int) =
      ((x.toNat / 2 ^ (y.toNat % 64) : Nat) : Int) := by
    rw [Int.natCast_ediv, Int.natCast_pow]
    rfl
  rw [RegOp.eval, hnat, wrap_nat]
  apply BitVec.eq_of_toNat_eq
  rw [BitVec.toNat_ofNat, BitVec.toNat_ushiftRight, Nat.shiftRight_eq_div_pow]
  exact Nat.mod_eq_of_lt (Nat.lt_of_le_of_lt (Nat.div_le_self _ _) x.isLt)

theorem eval_sra : RegOp.eval .sra x y = x.sshiftRight (y.toNat % 64) := by
  rw [← BitVec.ofInt_toInt (x := x.sshiftRight (y.toNat % 64)), BitVec.toInt_sshiftRight,
    Int.shiftRight_eq_div_pow, Int.natCast_pow]
  rfl

end

/-- Bytes at consecutive places are loaded as one word. -/
theorem load_value_at (op : LoadOp) {place : BitVec 64 → BitVec 64} (mem : BitVec 64 → BitVec 8)
    {addr p : BitVec 64}
    (h : ∀ i < op.bytes, place (addr + BitVec.ofNat 64 i) = p + BitVec.ofNat 64 i) :
    op.value place mem addr =
      if op.signed then (ByteMap.read (8 * op.bytes) mem p op.bytes).signExtend 64
      else (ByteMap.read (8 * op.bytes) mem p op.bytes).setWidth 64 := by
  have hread : ByteMap.read (8 * op.bytes) (fun a => mem (place a)) addr op.bytes =
      ByteMap.read (8 * op.bytes) mem p op.bytes := by
    refine ByteMap.read_congr fun i hi => ?_
    rw [h i hi]
  unfold LoadOp.value
  dsimp only
  rw [hread, wrap_nat, BitVec.ofNat_toNat]
  rfl

/-- Bytes at consecutive places are stored as one word. -/
theorem store_bytes_at {place : BitVec 64 → BitVec 64} (mem : BitVec 64 → BitVec 8)
    {addr p : BitVec 64} (value : BitVec 64) {n : Nat}
    (h : ∀ i < n, place (addr + BitVec.ofNat 64 i) = p + BitVec.ofNat 64 i) :
    storeBytes place mem addr value n = ByteMap.write mem p value n := by
  induction n with
  | zero => rfl
  | succ n ih =>
    funext x
    rw [storeBytes, ih fun i hi => h i (by omega), h n (by omega)]
    rfl

end Rv64i
