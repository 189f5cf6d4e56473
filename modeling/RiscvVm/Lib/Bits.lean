import Mathlib.Algebra.Group.Nat.Defs

/-!
Bits and masks of a register: a single bit tested through a shifted one, and
two values that agree outside a mask.
-/

namespace Bits

variable {w : Nat}

theorem getLsbD_one_shift (n i : Nat) (hn : n < w) :
    (1#w <<< n).getLsbD i = decide (i = n) := by
  rw [BitVec.getLsbD_shiftLeft, BitVec.getLsbD_one]
  by_cases hi : i = n
  · subst hi
    simp [hn]
    omega
  · simp only [hi, decide_false]
    by_cases hlt : i < n
    · simp [hlt]
    · simp [show ¬ i - n = 0 by omega]

/-- Testing with `x & (1 << n)` looks at bit `n`. -/
theorem and_one_shift_ne_zero (x : BitVec w) {n : Nat} (hn : n < w) :
    x &&& (1#w <<< n) ≠ 0#w ↔ x.getLsbD n = true := by
  constructor
  · intro h
    cases hb : x.getLsbD n with
    | true => rfl
    | false =>
      refine absurd (BitVec.eq_of_getLsbD_eq fun i hi => ?_) h
      rw [BitVec.getLsbD_and, getLsbD_one_shift n i hn, BitVec.getLsbD_zero]
      by_cases hi : i = n <;> simp [hi, hb]
  · intro h hz
    have := congrArg (fun v => v.getLsbD n) hz
    simp [h, getLsbD_one_shift n n hn] at this

/-- `(x >> k) & (2^n - 1)` is the field of `n` bits from bit `k`. -/
theorem shift_and_mask (x : BitVec w) (k n : Nat) :
    (x >>> k) &&& BitVec.ofNat w (2 ^ n - 1) = (x.extractLsb' k n).setWidth w := by
  apply BitVec.eq_of_getLsbD_eq
  intro i hi
  simp only [BitVec.getLsbD_and, BitVec.getLsbD_ushiftRight, BitVec.getLsbD_ofNat,
    Nat.testBit_two_pow_sub_one, BitVec.getLsbD_setWidth, BitVec.getLsbD_extractLsb', hi,
    decide_true, Bool.true_and]
  exact Bool.and_comm _ _

/-- Two values that differ at most in the bits of a mask. -/
def EqOff (mask x y : BitVec w) : Prop := x &&& ~~~mask = y &&& ~~~mask

theorem eqOff_iff {mask x y : BitVec w} :
    EqOff mask x y ↔ ∀ i < w, mask.getLsbD i = false → x.getLsbD i = y.getLsbD i := by
  constructor
  · intro h i hi hm
    have hb := congrArg (fun v => v.getLsbD i) h
    simpa only [BitVec.getLsbD_and, BitVec.getLsbD_not, hm, hi, decide_true, Bool.not_false,
      Bool.and_true] using hb
  · intro h
    apply BitVec.eq_of_getLsbD_eq
    intro i hi
    simp only [BitVec.getLsbD_and, BitVec.getLsbD_not]
    cases hm : mask.getLsbD i with
    | true => simp only [Bool.not_true, Bool.and_false]
    | false => rw [h i hi hm]

theorem EqOff.refl (mask x : BitVec w) : EqOff mask x x := rfl

theorem EqOff.trans {mask x y z : BitVec w} (h : EqOff mask x y) (g : EqOff mask y z) :
    EqOff mask x z := Eq.trans h g

theorem EqOff.bit {mask x y : BitVec w} (h : EqOff mask x y) {i : Nat} (hi : i < w)
    (hm : mask.getLsbD i = false) : x.getLsbD i = y.getLsbD i := eqOff_iff.mp h i hi hm

/-- Bits outside the mask are the same in both. -/
theorem EqOff.and_eq {mask x y z : BitVec w} (h : EqOff mask x y) (hz : z &&& mask = 0#w) :
    x &&& z = y &&& z := by
  apply BitVec.eq_of_getLsbD_eq
  intro i hi
  have hoff := congrArg (fun v => v.getLsbD i) hz
  simp only [BitVec.getLsbD_and, BitVec.getLsbD_zero] at hoff ⊢
  cases hm : mask.getLsbD i with
  | true =>
    rw [hm, Bool.and_true] at hoff
    rw [hoff, Bool.and_false, Bool.and_false]
  | false => rw [h.bit hi hm]

/-- A larger mask allows more to differ. -/
theorem EqOff.mono {mask mask' x y : BitVec w} (h : EqOff mask x y) (hm : mask &&& mask' = mask) :
    EqOff mask' x y := by
  refine eqOff_iff.mpr fun i hi hz => h.bit hi ?_
  rw [← hm, BitVec.getLsbD_and, hz, Bool.and_false]

theorem EqOff.of_allOnes (x y : BitVec w) : EqOff (BitVec.allOnes w) x y := by
  unfold EqOff
  simp

theorem EqOff.eq_of_zero {x y : BitVec w} (h : EqOff 0#w x y) : x = y :=
  BitVec.eq_of_getLsbD_eq fun _ hi => h.bit hi BitVec.getLsbD_zero

/-- A value with no bit outside a mask is no greater than the mask. -/
theorem EqOff.le_mask {mask x : BitVec w} (h : EqOff mask x 0#w) : x ≤ mask := by
  have hx : x = x &&& mask := by
    apply BitVec.eq_of_getLsbD_eq
    intro i hi
    rw [BitVec.getLsbD_and]
    cases hm : mask.getLsbD i with
    | true => rw [Bool.and_true]
    | false => rw [Bool.and_false, h.bit hi hm, BitVec.getLsbD_zero]
  rw [hx, BitVec.le_def, BitVec.toNat_and]
  exact Nat.and_le_right

/-- A masked write changes only bits of its mask. -/
theorem eqOff_blend (mask x v : BitVec w) : EqOff mask ((x &&& ~~~mask) ||| (v &&& mask)) x := by
  refine eqOff_iff.mpr fun i hi hm => ?_
  simp only [BitVec.getLsbD_or, BitVec.getLsbD_and, BitVec.getLsbD_not, hm, hi, decide_true,
    Bool.not_false, Bool.and_true, Bool.and_false, Bool.or_false]

/-- A masked write leaves the bits of the value in its mask. -/
theorem blend_and_mask (mask x v : BitVec w) :
    ((x &&& ~~~mask) ||| (v &&& mask)) &&& mask = v &&& mask := by
  apply BitVec.eq_of_getLsbD_eq
  intro i hi
  simp only [BitVec.getLsbD_or, BitVec.getLsbD_and, BitVec.getLsbD_not]
  cases mask.getLsbD i <;> simp

/-- Writing what is there in the bits of a mask changes nothing. -/
theorem blend_of_and_eq {mask x v : BitVec w} (h : v &&& mask = x &&& mask) :
    (x &&& ~~~mask) ||| (v &&& mask) = x := by
  rw [h]
  apply BitVec.eq_of_getLsbD_eq
  intro i hi
  simp only [BitVec.getLsbD_or, BitVec.getLsbD_and, BitVec.getLsbD_not, hi, decide_true]
  cases mask.getLsbD i <;> simp

/-- Of two writes through one mask the second is what counts. -/
theorem blend_blend (mask x v u : BitVec w) :
    (((x &&& ~~~mask) ||| (v &&& mask)) &&& ~~~mask) ||| (u &&& mask) =
      (x &&& ~~~mask) ||| (u &&& mask) := by
  have hoff : ((x &&& ~~~mask) ||| (v &&& mask)) &&& ~~~mask = x &&& ~~~mask :=
    eqOff_blend mask x v
  rw [hoff]

/-- What masked writes of a value can give. -/
theorem exists_blend_iff {mask x y : BitVec w} :
    (∃ v, (x &&& ~~~mask) ||| (v &&& mask) = y) ↔ EqOff mask y x := by
  constructor
  · rintro ⟨v, rfl⟩
    exact eqOff_blend mask x v
  · intro h
    refine ⟨y, BitVec.eq_of_getLsbD_eq fun i hi => ?_⟩
    simp only [BitVec.getLsbD_or, BitVec.getLsbD_and, BitVec.getLsbD_not, hi, decide_true,
      Bool.true_and]
    cases hm : mask.getLsbD i with
    | true => simp
    | false => simp [h.bit hi hm]

/-- A masked write stays within another mask when it keeps the bits of its own
that the other lacks. -/
theorem blend_within_iff {mask outer x v : BitVec w} :
    EqOff outer ((x &&& ~~~mask) ||| (v &&& mask)) x ↔
      ∀ i < w, outer.getLsbD i = false → mask.getLsbD i = true → v.getLsbD i = x.getLsbD i := by
  rw [eqOff_iff]
  refine forall₃_congr fun i hi _ => ?_
  simp only [BitVec.getLsbD_or, BitVec.getLsbD_and, BitVec.getLsbD_not, hi, decide_true,
    Bool.true_and]
  cases mask.getLsbD i with
  | true => simp
  | false => simp

end Bits
