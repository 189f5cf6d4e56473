import Mathlib.Algebra.Group.Int.Defs

/-!
The integer arithmetic of C: values of the integer types, the conversions between
them and the operators on values of any two types. An operator is `none` where its
behaviour is undefined. Values are in two's complement, and a shift to the right
keeps the sign.
-/

namespace CInt

/-- An integer type. The rank of a type is its width. -/
structure CType where
  width : Nat
  signed : Bool
deriving DecidableEq

abbrev uint8 : CType := ⟨8, false⟩
abbrev int32 : CType := ⟨32, true⟩
abbrev uint32 : CType := ⟨32, false⟩
abbrev int64 : CType := ⟨64, true⟩
abbrev uint64 : CType := ⟨64, false⟩
abbrev int128 : CType := ⟨128, true⟩
abbrev uint128 : CType := ⟨128, false⟩

/-- The numbers of the type. -/
def CType.Represents (t : CType) (n : Int) : Prop :=
  if t.signed then -2 ^ (t.width - 1) ≤ n ∧ n < 2 ^ (t.width - 1) else 0 ≤ n ∧ n < 2 ^ t.width

instance (t : CType) (n : Int) : Decidable (t.Represents n) := by
  unfold CType.Represents
  infer_instance

/-- A value of the type, by its bits. -/
structure Val (t : CType) where
  bits : BitVec t.width
deriving DecidableEq

section
variable {s t : CType}

def Val.number (v : Val t) : Int := if t.signed then v.bits.toInt else v.bits.toNat

/-- The value that is congruent to the number. -/
def ofInt (t : CType) (n : Int) : Val t := ⟨BitVec.ofInt t.width n⟩

def convert (t : CType) (v : Val s) : Val t := ofInt t v.number

/-- The type after the integer promotions. -/
def promoted (t : CType) : CType := if t.width < 32 then int32 else t

/-- The type that the usual arithmetic conversions give two operands. -/
def common (s t : CType) : CType :=
  let s := promoted s
  let t := promoted t
  if s.width < t.width then t
  else if t.width < s.width then s
  else ⟨s.width, s.signed && t.signed⟩

/-- What an operator gives whose result is this number: without a sign it is
reduced, with one it has to be a number of the type. -/
def exact (t : CType) (n : Int) : Option (Val t) :=
  if t.signed ∧ ¬ t.Represents n then none else some (ofInt t n)

def arith (f : Int → Int → Int) (x : Val s) (y : Val t) : Option (Val (common s t)) :=
  exact (common s t) (f (convert (common s t) x).number (convert (common s t) y).number)

def add (x : Val s) (y : Val t) : Option (Val (common s t)) := arith (· + ·) x y

def sub (x : Val s) (y : Val t) : Option (Val (common s t)) := arith (· - ·) x y

def mul (x : Val s) (y : Val t) : Option (Val (common s t)) := arith (· * ·) x y

/-- A quotient is cut towards zero. -/
def div (x : Val s) (y : Val t) : Option (Val (common s t)) :=
  if (convert (common s t) y).number = 0 then none else arith Int.tdiv x y

/-- The remainder is defined where the quotient is. -/
def rem (x : Val s) (y : Val t) : Option (Val (common s t)) :=
  (div x y).bind fun _ => arith Int.tmod x y

/-- The operands of a shift are promoted each on its own. -/
def shl (x : Val s) (y : Val t) : Option (Val (promoted s)) :=
  let n := (convert (promoted s) x).number
  let amount := (convert (promoted t) y).number
  if amount < 0 ∨ (promoted s).width ≤ amount then none
  else if (promoted s).signed ∧ n < 0 then none
  else exact (promoted s) (n * 2 ^ amount.toNat)

def shr (x : Val s) (y : Val t) : Option (Val (promoted s)) :=
  let n := (convert (promoted s) x).number
  let amount := (convert (promoted t) y).number
  if amount < 0 ∨ (promoted s).width ≤ amount then none
  else some (ofInt (promoted s) (n / 2 ^ amount.toNat))

def band (x : Val s) (y : Val t) : Val (common s t) :=
  ⟨(convert (common s t) x).bits &&& (convert (common s t) y).bits⟩

def bor (x : Val s) (y : Val t) : Val (common s t) :=
  ⟨(convert (common s t) x).bits ||| (convert (common s t) y).bits⟩

def eq (x : Val s) (y : Val t) : Bool :=
  (convert (common s t) x).number == (convert (common s t) y).number

end

section
variable {s t : CType}

theorem number_signed (h : t.signed = true) (v : Val t) : v.number = v.bits.toInt := if_pos h

theorem number_unsigned (h : t.signed = false) (v : Val t) : v.number = v.bits.toNat :=
  if_neg (Bool.eq_false_iff.mp h)

theorem represents_number (v : Val t) : t.Represents v.number := by
  unfold CType.Represents Val.number
  split
  · exact ⟨v.bits.le_toInt, v.bits.toInt_lt⟩
  · have hlt := v.bits.isLt
    exact ⟨Int.natCast_nonneg _, by exact_mod_cast hlt⟩

@[simp] theorem of_int_number (v : Val t) : ofInt t v.number = v := by
  unfold ofInt Val.number
  split
  · rw [BitVec.ofInt_toInt]
  · rw [BitVec.ofInt_natCast, BitVec.ofNat_toNat, BitVec.setWidth_eq]

@[simp] theorem convert_self (v : Val t) : convert t v = v := of_int_number v

theorem number_inj {x y : Val t} : x.number = y.number ↔ x = y := by
  constructor
  · intro h
    rw [← of_int_number x, h, of_int_number]
  · intro h
    rw [h]

/-- Values are compared by their bits in the common type. -/
theorem eq_bits (x : Val s) (y : Val t) :
    eq x y = decide ((convert (common s t) x).bits = (convert (common s t) y).bits) := by
  unfold eq
  rw [Bool.beq_eq_decide_eq, decide_eq_decide, number_inj, Val.mk.injEq]

theorem eq_of_bits {x : Val s} {y : Val t} {a b : BitVec (common s t).width}
    (hx : (convert (common s t) x).bits = a) (hy : (convert (common s t) y).bits = b) :
    eq x y = decide (a = b) := by
  rw [eq_bits, hx, hy]

theorem convert_signed (h : s.signed = true) (v : Val s) :
    convert t v = ⟨v.bits.signExtend t.width⟩ := by
  unfold convert
  rw [number_signed h]
  rfl

theorem convert_unsigned (h : s.signed = false) (v : Val s) :
    convert t v = ⟨v.bits.setWidth t.width⟩ := by
  unfold convert ofInt
  rw [number_unsigned h, BitVec.ofInt_natCast, BitVec.ofNat_toNat]

/-- Between types of one width the bits stay. -/
theorem convert_bits {w : Nat} {a : Bool} (b : Bool) (v : Val ⟨w, a⟩) :
    convert ⟨w, b⟩ v = ⟨v.bits⟩ := by
  cases a with
  | true => rw [convert_signed rfl, BitVec.signExtend_eq]
  | false => rw [convert_unsigned rfl, BitVec.setWidth_eq]

/-- A type without a sign takes every result. -/
theorem exact_unsigned (h : t.signed = false) (n : Int) : exact t n = some (ofInt t n) :=
  if_neg fun hs => Bool.eq_false_iff.mp h hs.1

theorem exact_signed (h : t.signed = true) (n : Int) :
    exact t n = if t.Represents n then some (ofInt t n) else none := by
  unfold exact
  split
  · rename_i hno
    rw [if_neg hno.2]
  · rename_i hyes
    rw [if_pos (Decidable.not_not.mp fun hno => hyes ⟨h, hno⟩)]

theorem number_of_int {n : Int} (hw : 0 < t.width) (h : t.Represents n) :
    (ofInt t n).number = n := by
  unfold CType.Represents at h
  cases hs : t.signed with
  | true =>
    rw [hs, if_pos rfl] at h
    rw [number_signed hs]
    exact BitVec.toInt_ofInt_eq_self hw h.1 h.2
  | false =>
    rw [hs, if_neg Bool.false_ne_true] at h
    have hpos : ((2 ^ t.width : Nat) : Int) ≠ 0 := Int.ne_of_gt (mod_cast Nat.two_pow_pos _)
    rw [number_unsigned hs]
    change ((BitVec.ofInt t.width n).toNat : Int) = n
    rw [BitVec.toNat_ofInt, Int.toNat_of_nonneg (Int.emod_nonneg _ hpos)]
    exact Int.emod_eq_of_lt h.1 (mod_cast h.2)

/-- A conversion keeps the numbers of the new type. -/
theorem number_convert {v : Val s} (hw : 0 < t.width) (h : t.Represents v.number) :
    (convert t v).number = v.number := number_of_int hw h

/-- An operator whose operands have their numbers in the common type. -/
theorem arith_exact {f : Int → Int → Int} {x : Val s} {y : Val t} (hw : 0 < (common s t).width)
    (hx : (common s t).Represents x.number) (hy : (common s t).Represents y.number) :
    arith f x y = exact (common s t) (f x.number y.number) := by
  unfold arith
  rw [number_convert hw hx, number_convert hw hy]

/-- Where a sign is no obstacle, the result is the one modulo the width. -/
theorem arith_some {f : Int → Int → Int} {x : Val s} {y : Val t}
    (h : (common s t).signed = true → (common s t).Represents
      (f (convert (common s t) x).number (convert (common s t) y).number)) :
    arith f x y = some (ofInt (common s t)
      (f (convert (common s t) x).number (convert (common s t) y).number)) :=
  if_neg fun hno => hno.2 (h hno.1)

theorem of_int_add (v w : Val t) : ofInt t (v.number + w.number) = ⟨v.bits + w.bits⟩ := by
  have hv : BitVec.ofInt t.width v.number = v.bits := congrArg Val.bits (of_int_number v)
  have hw : BitVec.ofInt t.width w.number = w.bits := congrArg Val.bits (of_int_number w)
  rw [ofInt, BitVec.ofInt_add, hv, hw]

theorem of_int_mul (v w : Val t) : ofInt t (v.number * w.number) = ⟨v.bits * w.bits⟩ := by
  have hv : BitVec.ofInt t.width v.number = v.bits := congrArg Val.bits (of_int_number v)
  have hw : BitVec.ofInt t.width w.number = w.bits := congrArg Val.bits (of_int_number w)
  rw [ofInt, BitVec.ofInt_mul, hv, hw]

theorem add_unsigned {x : Val s} {y : Val t} (hs : (common s t).signed = false) :
    add x y = some ⟨(convert (common s t) x).bits + (convert (common s t) y).bits⟩ := by
  rw [← of_int_add]
  exact arith_some fun hyes => absurd hyes (Bool.eq_false_iff.mp hs)

theorem mul_some {x : Val s} {y : Val t} (h : (common s t).signed = true →
    (common s t).Represents ((convert (common s t) x).number * (convert (common s t) y).number)) :
    mul x y = some ⟨(convert (common s t) x).bits * (convert (common s t) y).bits⟩ := by
  rw [← of_int_mul]
  exact arith_some h

/-! A shift whose amount is the number `k` below the width. -/

section
variable {x : Val s} {y : Val t} {k : Nat} (hy : (convert (promoted t) y).number = k)
  (hk : k < (promoted s).width)
include hy hk

theorem amount_ok : ¬ ((convert (promoted t) y).number < 0 ∨
    ((promoted s).width : Int) ≤ (convert (promoted t) y).number) := by
  rw [hy]
  omega

theorem shl_unsigned (hs : (promoted s).signed = false) :
    shl x y = some ⟨(convert (promoted s) x).bits <<< k⟩ := by
  have hno : ¬ ((promoted s).signed = true ∧ (convert (promoted s) x).number < 0) := by
    rintro ⟨hyes, _⟩
    exact Bool.eq_false_iff.mp hs hyes
  unfold shl
  dsimp only
  rw [if_neg (amount_ok hy hk), if_neg hno, exact_unsigned hs, hy, number_unsigned hs, ofInt]
  congr 2
  apply BitVec.eq_of_toNat_eq
  rw [Int.toNat_natCast, BitVec.toNat_shiftLeft, Nat.shiftLeft_eq]
  exact_mod_cast BitVec.toNat_ofNat _ _

theorem shr_unsigned (hs : (promoted s).signed = false) :
    shr x y = some ⟨(convert (promoted s) x).bits >>> k⟩ := by
  unfold shr
  dsimp only
  rw [if_neg (amount_ok hy hk), hy, number_unsigned hs, ofInt]
  congr 2
  apply BitVec.eq_of_toNat_eq
  rw [Int.toNat_natCast, BitVec.toNat_ushiftRight, Nat.shiftRight_eq_div_pow]
  have hlt := Nat.lt_of_le_of_lt (Nat.div_le_self (convert (promoted s) x).bits.toNat (2 ^ k))
    (convert (promoted s) x).bits.isLt
  refine Eq.trans ?_ (Nat.mod_eq_of_lt hlt)
  exact_mod_cast BitVec.toNat_ofNat _ _

theorem shr_signed (hs : (promoted s).signed = true) :
    shr x y = some ⟨(convert (promoted s) x).bits.sshiftRight k⟩ := by
  unfold shr
  dsimp only
  rw [if_neg (amount_ok hy hk), hy, number_signed hs, ofInt, BitVec.sshiftRight,
    Int.shiftRight_eq_div_pow, Int.toNat_natCast]
  rfl

end

/-! Divisions, by the bits of the operands in the common type. -/

section
variable {x : Val s} {y : Val t}

theorem number_eq_zero {v : Val t} : v.number = 0 ↔ v.bits = 0 := by
  have hzero : (⟨0⟩ : Val t).number = 0 := by
    unfold Val.number
    split <;> simp
  rw [← hzero, number_inj, Val.mk.injEq]

/-- A result that is a value of the type is that value. -/
theorem exact_number (v : Val t) : exact t v.number = some v := by
  unfold exact
  rw [if_neg fun hno => hno.2 (represents_number v), of_int_number]

theorem div_exact {z : Val (common s t)} (h0 : (convert (common s t) y).bits ≠ 0)
    (hz : (convert (common s t) x).number.tdiv (convert (common s t) y).number = z.number) :
    div x y = some z := by
  unfold div arith
  rw [if_neg fun hzero => h0 (number_eq_zero.mp hzero), hz, exact_number]

theorem rem_exact {q z : Val (common s t)} (hq : div x y = some q)
    (hz : (convert (common s t) x).number.tmod (convert (common s t) y).number = z.number) :
    rem x y = some z := by
  unfold rem arith
  rw [hq, hz, exact_number]
  rfl

section
variable (hs : (common s t).signed = false) (h0 : (convert (common s t) y).bits ≠ 0)
include hs h0

theorem div_unsigned :
    div x y = some ⟨(convert (common s t) x).bits / (convert (common s t) y).bits⟩ := by
  refine div_exact h0 ?_
  rw [number_unsigned hs, number_unsigned hs, number_unsigned hs, BitVec.toNat_udiv]
  exact (Int.ofNat_tdiv _ _).symm

theorem rem_unsigned :
    rem x y = some ⟨(convert (common s t) x).bits % (convert (common s t) y).bits⟩ := by
  refine rem_exact (div_unsigned hs h0) ?_
  rw [number_unsigned hs, number_unsigned hs, number_unsigned hs, BitVec.toNat_umod]
  exact (Int.ofNat_tmod _ _).symm

end

section
variable (hs : (common s t).signed = true) (h0 : (convert (common s t) y).bits ≠ 0)
  (hfits : ¬ ((convert (common s t) x).bits = BitVec.intMin _ ∧
    (convert (common s t) y).bits = BitVec.allOnes _))
include hs h0 hfits

theorem div_signed :
    div x y = some ⟨(convert (common s t) x).bits.sdiv (convert (common s t) y).bits⟩ := by
  refine div_exact h0 ?_
  rw [number_signed hs, number_signed hs, number_signed hs, BitVec.toInt_sdiv_of_ne_or_ne]
  rw [BitVec.neg_one_eq_allOnes]
  exact Decidable.not_and_iff_not_or_not.mp hfits

theorem rem_signed :
    rem x y = some ⟨(convert (common s t) x).bits.srem (convert (common s t) y).bits⟩ := by
  refine rem_exact (div_signed hs h0 hfits) ?_
  rw [number_signed hs, number_signed hs, number_signed hs, BitVec.toInt_srem]

end

end

end

end CInt
