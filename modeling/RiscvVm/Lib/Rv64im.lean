import RiscvVm.Lib.Rv64i

/-!
The word operations of RV64I and the M extension: how they are encoded and the
value each gives, on numbers. A word operation acts on the low halves of its
operands, and its result is the sign extension of the low half.
-/

namespace Rv64im
open Rv64i

def low (x : BitVec 64) : BitVec 32 := x.setWidth 32

/-- The sign extension of a number modulo 2^32. -/
def word (n : Int) : BitVec 64 := (BitVec.ofInt 32 n).signExtend 64

inductive WordOp
  | addw
  | subw
  | sllw
  | srlw
  | sraw
deriving DecidableEq

inductive WordShift
  | slliw
  | srliw
  | sraiw

inductive WordInstr
  | register (op : WordOp) (rd rs1 rs2 : BitVec 5)
  | addiw (rd rs1 : BitVec 5) (imm : BitVec 12)
  | shift (op : WordShift) (rd rs1 : BitVec 5) (shamt : BitVec 5)

def WordOp.funct3 : WordOp → BitVec 3
  | .addw | .subw => 0
  | .sllw => 1
  | .srlw | .sraw => 5

def WordOp.funct7 : WordOp → BitVec 7
  | .subw | .sraw => 0b0100000
  | _ => 0

/-- The operation with a register for the shift amount. -/
def WordShift.wordOp : WordShift → WordOp
  | .slliw => .sllw
  | .srliw => .srlw
  | .sraiw => .sraw

def WordInstr.encode : WordInstr → BitVec 32
  | .register op rd rs1 rs2 => rFormat op.funct7 rs2 rs1 op.funct3 rd 0b0111011
  | .addiw rd rs1 imm => iFormat imm rs1 0 rd 0b0011011
  | .shift op rd rs1 shamt =>
    iFormat (op.wordOp.funct7 ++ shamt) rs1 op.wordOp.funct3 rd 0b0011011

def WordOp.eval : WordOp → BitVec 64 → BitVec 64 → BitVec 64
  | .addw, x, y => word ((low x).toInt + (low y).toInt)
  | .subw, x, y => word ((low x).toInt - (low y).toInt)
  | .sllw, x, y => word ((low x).toNat * 2 ^ (y.toNat % 32))
  | .srlw, x, y => word ((low x).toNat / 2 ^ (y.toNat % 32))
  | .sraw, x, y => word ((low x).toInt / 2 ^ (y.toNat % 32))

def WordInstr.rd : WordInstr → BitVec 5
  | .register _ rd _ _ => rd
  | .addiw rd _ _ => rd
  | .shift _ rd _ _ => rd

def WordInstr.value (regs : BitVec 5 → BitVec 64) : WordInstr → BitVec 64
  | .register op _ rs1 rs2 => op.eval (regs rs1) (regs rs2)
  | .addiw _ rs1 imm => WordOp.addw.eval (regs rs1) (wrap imm.toInt)
  | .shift op _ rs1 shamt => op.wordOp.eval (regs rs1) (shamt.setWidth 64)

inductive MOp
  | mul
  | mulh
  | mulhsu
  | mulhu
  | div
  | divu
  | rem
  | remu
  | mulw
  | divw
  | divuw
  | remw
  | remuw

def MOp.isWord : MOp → Bool
  | .mulw | .divw | .divuw | .remw | .remuw => true
  | _ => false

def MOp.funct3 : MOp → BitVec 3
  | .mul | .mulw => 0
  | .mulh => 1
  | .mulhsu => 2
  | .mulhu => 3
  | .div | .divw => 4
  | .divu | .divuw => 5
  | .rem | .remw => 6
  | .remu | .remuw => 7

def MOp.encode (op : MOp) (rd rs1 rs2 : BitVec 5) : BitVec 32 :=
  rFormat 0b0000001 rs2 rs1 op.funct3 rd (if op.isWord then 0b0111011 else 0b0110011)

section
variable {w : Nat}

/-- The one signed quotient that does not fit. -/
def Overflows (x y : BitVec w) : Prop := x.toInt = -2 ^ (w - 1) ∧ y.toInt = -1

instance (x y : BitVec w) : Decidable (Overflows x y) := inferInstanceAs (Decidable (_ ∧ _))

def quotient (x y : BitVec w) : BitVec w :=
  if y.toInt = 0 then BitVec.ofInt w (-1)
  else if Overflows x y then x
  else BitVec.ofInt w (x.toInt.tdiv y.toInt)

def remainder (x y : BitVec w) : BitVec w :=
  if y.toInt = 0 then x
  else if Overflows x y then 0
  else BitVec.ofInt w (x.toInt.tmod y.toInt)

def quotientU (x y : BitVec w) : BitVec w :=
  if y.toNat = 0 then BitVec.ofInt w (-1) else BitVec.ofNat w (x.toNat / y.toNat)

def remainderU (x y : BitVec w) : BitVec w :=
  if y.toNat = 0 then x else BitVec.ofNat w (x.toNat % y.toNat)

end

/-- The low half of the result of a 32-bit operation, sign-extended. -/
def onWords (f : BitVec 32 → BitVec 32 → BitVec 32) (x y : BitVec 64) : BitVec 64 :=
  (f (low x) (low y)).signExtend 64

/-- Products are exact: division by 2^64 takes their upper half, rounding down. -/
def MOp.eval : MOp → BitVec 64 → BitVec 64 → BitVec 64
  | .mul, x, y => wrap (x.toInt * y.toInt)
  | .mulh, x, y => wrap (x.toInt * y.toInt / 2 ^ 64)
  | .mulhsu, x, y => wrap (x.toInt * y.toNat / 2 ^ 64)
  | .mulhu, x, y => wrap (x.toNat * y.toNat / 2 ^ 64)
  | .div, x, y => quotient x y
  | .divu, x, y => quotientU x y
  | .rem, x, y => remainder x y
  | .remu, x, y => remainderU x y
  | .mulw, x, y => word ((low x).toInt * (low y).toInt)
  | .divw, x, y => onWords quotient x y
  | .divuw, x, y => onWords quotientU x y
  | .remw, x, y => onWords remainder x y
  | .remuw, x, y => onWords remainderU x y

section
variable {w : Nat} (x y : BitVec w)

theorem toInt_all_ones (hw : 0 < w) : (BitVec.allOnes w).toInt = -1 := by
  simp [BitVec.toInt_allOnes, hw]

theorem ofInt_minus_one : BitVec.ofInt w (-1) = BitVec.allOnes w := by
  rw [BitVec.ofInt_neg, ← BitVec.neg_one_eq_allOnes]
  rfl

theorem overflows_iff (hw : 0 < w) :
    Overflows x y ↔ x = BitVec.intMin w ∧ y = BitVec.allOnes w := by
  rw [Overflows, ← BitVec.toInt_intMin_of_pos hw, ← toInt_all_ones hw, BitVec.toInt_inj,
    BitVec.toInt_inj]

theorem toInt_eq_zero_iff : y.toInt = 0 ↔ y = 0 := by
  rw [← BitVec.toInt_zero (w := w), BitVec.toInt_inj]
  rfl

theorem toNat_eq_zero_iff : y.toNat = 0 ↔ y = 0 := by
  rw [← BitVec.toNat_inj]
  simp

/-- Quotient and remainder give the dividend back, in the special cases too. -/
theorem quotient_mul_add (hw : 0 < w) : quotient x y * y + remainder x y = x := by
  unfold quotient remainder
  split
  · rename_i hz
    simp [(toInt_eq_zero_iff y).mp hz]
  · split
    · rename_i ho
      obtain ⟨rfl, rfl⟩ := (overflows_iff x y hw).mp ho
      rw [← BitVec.neg_one_eq_allOnes]
      simp
    · have hdiv := Int.tdiv_mul_add_tmod x.toInt y.toInt
      calc BitVec.ofInt w (x.toInt.tdiv y.toInt) * y + BitVec.ofInt w (x.toInt.tmod y.toInt)
          = BitVec.ofInt w (x.toInt.tdiv y.toInt * y.toInt + x.toInt.tmod y.toInt) := by
            rw [BitVec.ofInt_add, BitVec.ofInt_mul, BitVec.ofInt_toInt]
        _ = x := by rw [hdiv, BitVec.ofInt_toInt]

theorem quotientU_mul_add : quotientU x y * y + remainderU x y = x := by
  unfold quotientU remainderU
  split
  · rename_i hz
    simp [(toNat_eq_zero_iff y).mp hz]
  · have hdiv := Nat.div_add_mod' x.toNat y.toNat
    calc BitVec.ofNat w (x.toNat / y.toNat) * y + BitVec.ofNat w (x.toNat % y.toNat)
        = BitVec.ofNat w (x.toNat / y.toNat * y.toNat + x.toNat % y.toNat) := by
          rw [BitVec.ofNat_add, BitVec.ofNat_mul, BitVec.ofNat_toNat, BitVec.setWidth_eq]
      _ = x := by rw [hdiv, BitVec.ofNat_toNat, BitVec.setWidth_eq]

/-- It does not matter whether a division looks for a zero divisor or for an
overflow first. -/
theorem test_order (hw : 0 < w) {α : Type} (a b c : α) :
    (if y = 0 then a else if x = BitVec.intMin w ∧ y = BitVec.allOnes w then b else c) =
      if x = BitVec.intMin w ∧ y = BitVec.allOnes w then b else if y = 0 then a else c := by
  by_cases ho : x = BitVec.intMin w ∧ y = BitVec.allOnes w
  · have hy : y ≠ 0 := by
      intro hz
      have := toInt_all_ones hw
      rw [← ho.2, hz] at this
      simp at this
    rw [if_neg hy, if_pos ho, if_pos ho]
  · rw [if_neg ho, if_neg ho]

theorem quotient_eq (hw : 0 < w) :
    quotient x y =
      if x = BitVec.intMin w ∧ y = BitVec.allOnes w then BitVec.intMin w
      else if y = 0 then BitVec.allOnes w else x.sdiv y := by
  simp only [quotient, toInt_eq_zero_iff, overflows_iff x y hw, test_order x y hw]
  split
  · rename_i ho
    exact ho.1
  · split
    · exact ofInt_minus_one
    · apply BitVec.eq_of_toInt_eq
      rw [BitVec.toInt_sdiv, BitVec.toInt_ofInt]

theorem remainder_eq (hw : 0 < w) :
    remainder x y =
      if x = BitVec.intMin w ∧ y = BitVec.allOnes w then 0
      else if y = 0 then x else x.srem y := by
  simp only [remainder, toInt_eq_zero_iff, overflows_iff x y hw, test_order x y hw]
  split
  · rfl
  · split
    · rfl
    · rw [← BitVec.toInt_srem, BitVec.ofInt_toInt]

theorem quotientU_eq : quotientU x y = if y = 0 then BitVec.allOnes w else x / y := by
  simp only [quotientU, toNat_eq_zero_iff]
  by_cases hz : y = 0
  · rw [if_pos hz, if_pos hz, ofInt_minus_one]
  · rw [if_neg hz, if_neg hz, ← BitVec.toNat_udiv, BitVec.ofNat_toNat, BitVec.setWidth_eq]

theorem remainderU_eq : remainderU x y = if y = 0 then x else x % y := by
  simp only [remainderU, toNat_eq_zero_iff]
  by_cases hz : y = 0
  · rw [if_pos hz, if_pos hz]
  · rw [if_neg hz, if_neg hz, ← BitVec.toNat_umod, BitVec.ofNat_toNat, BitVec.setWidth_eq]

end

/-- Shifting a product right takes its upper half, whatever its sign. -/
theorem upper_half (n : Int) :
    (BitVec.ofInt 128 n).extractLsb' 64 64 = wrap (n / 2 ^ 64) := by
  apply BitVec.eq_of_toNat_eq
  rw [BitVec.extractLsb'_toNat, BitVec.toNat_ofInt, wrap, BitVec.toNat_ofInt,
    Nat.shiftRight_eq_div_pow]
  omega

section
variable (x y : BitVec 64)

theorem eval_addw : WordOp.eval .addw x y = (low x + low y).signExtend 64 := by
  rw [WordOp.eval, word, BitVec.ofInt_add, BitVec.ofInt_toInt, BitVec.ofInt_toInt]

theorem eval_subw : WordOp.eval .subw x y = (low x - low y).signExtend 64 := by
  rw [WordOp.eval, word, Int.sub_eq_add_neg, BitVec.ofInt_add, BitVec.ofInt_neg, BitVec.ofInt_toInt,
    BitVec.ofInt_toInt, BitVec.sub_eq_add_neg]

theorem eval_sllw : WordOp.eval .sllw x y = (low x <<< (y.toNat % 32)).signExtend 64 := by
  have hnat : ((low x).toNat * 2 ^ (y.toNat % 32) : Int) =
      (((low x).toNat * 2 ^ (y.toNat % 32) : Nat) : Int) := by
    rw [Int.natCast_mul, Int.natCast_pow]
    rfl
  rw [WordOp.eval, word, hnat, BitVec.ofInt_natCast]
  congr 1
  apply BitVec.eq_of_toNat_eq
  rw [BitVec.toNat_ofNat, BitVec.toNat_shiftLeft, Nat.shiftLeft_eq]

theorem eval_srlw : WordOp.eval .srlw x y = (low x >>> (y.toNat % 32)).signExtend 64 := by
  have hnat : ((low x).toNat / 2 ^ (y.toNat % 32) : Int) =
      (((low x).toNat / 2 ^ (y.toNat % 32) : Nat) : Int) := by
    rw [Int.natCast_ediv, Int.natCast_pow]
    rfl
  rw [WordOp.eval, word, hnat, BitVec.ofInt_natCast]
  congr 1
  apply BitVec.eq_of_toNat_eq
  rw [BitVec.toNat_ofNat, BitVec.toNat_ushiftRight, Nat.shiftRight_eq_div_pow]
  exact Nat.mod_eq_of_lt (Nat.lt_of_le_of_lt (Nat.div_le_self _ _) (low x).isLt)

theorem eval_sraw : WordOp.eval .sraw x y =
    ((low x).sshiftRight (y.toNat % 32)).signExtend 64 := by
  rw [← BitVec.ofInt_toInt (x := (low x).sshiftRight (y.toNat % 32)), BitVec.toInt_sshiftRight,
    Int.shiftRight_eq_div_pow, Int.natCast_pow]
  rfl

theorem eval_mul : MOp.eval .mul x y = x * y := by
  rw [MOp.eval, wrap, BitVec.ofInt_mul, BitVec.ofInt_toInt, BitVec.ofInt_toInt]

theorem eval_mulh : MOp.eval .mulh x y =
    (x.signExtend 128 * y.signExtend 128).extractLsb' 64 64 := by
  rw [MOp.eval, ← upper_half, BitVec.ofInt_mul]
  rfl

theorem eval_mulhsu : MOp.eval .mulhsu x y =
    (x.signExtend 128 * y.setWidth 128).extractLsb' 64 64 := by
  rw [MOp.eval, ← upper_half, BitVec.ofInt_mul, BitVec.ofInt_natCast, BitVec.ofNat_toNat]
  rfl

theorem eval_mulhu : MOp.eval .mulhu x y =
    (x.setWidth 128 * y.setWidth 128).extractLsb' 64 64 := by
  rw [MOp.eval, ← upper_half, BitVec.ofInt_mul, BitVec.ofInt_natCast, BitVec.ofInt_natCast,
    BitVec.ofNat_toNat, BitVec.ofNat_toNat]

theorem eval_mulw : MOp.eval .mulw x y = (low x * low y).signExtend 64 := by
  rw [MOp.eval, word, BitVec.ofInt_mul, BitVec.ofInt_toInt, BitVec.ofInt_toInt]

end

/-- An arithmetic shift by 16 more gives the same only for a number that the
first shift already takes to 0 or -1. -/
theorem shift_more_iff (n : Int) (j : Nat) :
    n / 2 ^ j = n / 2 ^ (j + 16) ↔ -2 ^ j ≤ n ∧ n < 2 ^ j := by
  have hpos : (0 : Int) < 2 ^ j := Int.pow_pos (by decide)
  have hq : n / 2 ^ (j + 16) = n / 2 ^ j / 65536 := by
    rw [Int.pow_add, Int.ediv_ediv_of_nonneg (Int.le_of_lt hpos)]
    rfl
  have hlo : -1 ≤ n / 2 ^ j ↔ -2 ^ j ≤ n := by
    rw [Int.le_ediv_iff_mul_le hpos]
    omega
  have hhi : n / 2 ^ j < 1 ↔ n < 2 ^ j := by
    rw [Int.ediv_lt_iff_lt_mul hpos]
    omega
  rw [hq, ← hlo, ← hhi]
  omega

end Rv64im
