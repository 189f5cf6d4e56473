import Mathlib.Algebra.Group.Nat.Defs

/-!
The read-modify-write operations of the A extension: their codes and the value
each leaves in memory, at any width.
-/

namespace Rv64a

inductive AmoOp
  | swap
  | add
  | xor
  | and
  | or
  | min
  | max
  | minu
  | maxu
deriving DecidableEq

def AmoOp.funct5 : AmoOp → BitVec 5
  | .add => 0b00000
  | .swap => 0b00001
  | .xor => 0b00100
  | .or => 0b01000
  | .and => 0b01100
  | .min => 0b10000
  | .max => 0b10100
  | .minu => 0b11000
  | .maxu => 0b11100

/-- The value put in the place of `old`, where `rhs` is that of the register. -/
def AmoOp.eval {w : Nat} (op : AmoOp) (old rhs : BitVec w) : BitVec w :=
  match op with
  | .swap => rhs
  | .add => old + rhs
  | .xor => old ^^^ rhs
  | .and => old &&& rhs
  | .or => old ||| rhs
  | .min => if old.toInt ≤ rhs.toInt then old else rhs
  | .max => if old.toInt ≤ rhs.toInt then rhs else old
  | .minu => if old.toNat ≤ rhs.toNat then old else rhs
  | .maxu => if old.toNat ≤ rhs.toNat then rhs else old

section
variable {w : Nat} (old rhs : BitVec w)

/-- A tie does not matter to a minimum. -/
theorem eval_min : AmoOp.min.eval old rhs = if old.slt rhs then old else rhs := by
  change (if old.toInt ≤ rhs.toInt then old else rhs) = _
  rw [BitVec.slt_eq_decide]
  by_cases hlt : old.toInt < rhs.toInt
  · simp [hlt, Int.le_of_lt hlt]
  · by_cases heq : old.toInt = rhs.toInt
    · simp [BitVec.eq_of_toInt_eq heq]
    · simp [hlt, show ¬ old.toInt ≤ rhs.toInt by omega]

theorem eval_minu : AmoOp.minu.eval old rhs = if old.ult rhs then old else rhs := by
  change (if old.toNat ≤ rhs.toNat then old else rhs) = _
  rw [BitVec.ult_eq_decide]
  by_cases hlt : old.toNat < rhs.toNat
  · simp [hlt, Nat.le_of_lt hlt]
  · by_cases heq : old.toNat = rhs.toNat
    · simp [BitVec.eq_of_toNat_eq heq]
    · simp [hlt, show ¬ old.toNat ≤ rhs.toNat by omega]

theorem eval_max : AmoOp.max.eval old rhs = if rhs.slt old then old else rhs := by
  change (if old.toInt ≤ rhs.toInt then rhs else old) = _
  rw [BitVec.slt_eq_decide]
  by_cases hle : old.toInt ≤ rhs.toInt
  · simp [hle, show ¬ rhs.toInt < old.toInt by omega]
  · simp [hle, show rhs.toInt < old.toInt by omega]

theorem eval_maxu : AmoOp.maxu.eval old rhs = if rhs.ult old then old else rhs := by
  change (if old.toNat ≤ rhs.toNat then rhs else old) = _
  rw [BitVec.ult_eq_decide]
  by_cases hle : old.toNat ≤ rhs.toNat
  · simp [hle, show ¬ rhs.toNat < old.toNat by omega]
  · simp [hle, show rhs.toNat < old.toNat by omega]

end

end Rv64a
