import RiscvVm.Dispatch.Checked
import RiscvVm.Proofs.Arithmetic

namespace RiscvVm.Proofs
open CInt
open Rv64im (low)

section
variable {t : CType}

@[simp] theorem convert_int32 (v : Val int32) : convert t v = ⟨v.bits.signExtend t.width⟩ :=
  convert_signed rfl v

@[simp] theorem convert_int64 (v : Val int64) : convert t v = ⟨v.bits.signExtend t.width⟩ :=
  convert_signed rfl v

@[simp] theorem convert_int128 (v : Val int128) : convert t v = ⟨v.bits.signExtend t.width⟩ :=
  convert_signed rfl v

@[simp] theorem convert_uint8 (v : Val uint8) : convert t v = ⟨v.bits.setWidth t.width⟩ :=
  convert_unsigned rfl v

@[simp] theorem convert_uint32 (v : Val uint32) : convert t v = ⟨v.bits.setWidth t.width⟩ :=
  convert_unsigned rfl v

@[simp] theorem convert_uint64 (v : Val uint64) : convert t v = ⟨v.bits.setWidth t.width⟩ :=
  convert_unsigned rfl v

@[simp] theorem convert_uint128 (v : Val uint128) : convert t v = ⟨v.bits.setWidth t.width⟩ :=
  convert_unsigned rfl v

end

/-- The code of `sign_extend` is defined, and computes what its model does. -/
theorem sign_extend_checked (imm : BitVec 32) :
    Checked.signExtend ⟨imm⟩ (convert uint8 (Checked.lit 32)) = some ⟨signExtend imm 32⟩ := by
  have hplace : CInt.sub (convert uint8 (Checked.lit 32)) (Checked.lit 1) = some ⟨31⟩ := by decide
  have hmask : shl (ofInt uint64 1) (⟨31⟩ : Val (common uint8 int32)) = some ⟨1#64 <<< 31⟩ := by
    decide
  have hones : shl (ofInt uint64 0xFFFFFFFFFFFFFFFF) (convert uint8 (Checked.lit 32)) =
      some ⟨0xFFFFFFFFFFFFFFFF#64 <<< 32⟩ := by decide
  have hmasked : band (⟨imm⟩ : Val uint32) (⟨1#64 <<< 31⟩ : Val (promoted uint64)) =
      ⟨imm.setWidth 64 &&& (1#64 <<< 31)⟩ := by
    unfold band
    rw [convert_uint32]
    rfl
  have hsign : CInt.eq (⟨imm.setWidth 64 &&& (1#64 <<< 31)⟩ : Val (common uint32 (promoted uint64)))
      (Checked.lit 0) = decide (imm.setWidth 64 &&& (1#64 <<< 31) = 0) := by
    rw [eq_bits]
    have hself := convert_self (⟨imm.setWidth 64 &&& (1#64 <<< 31)⟩ : Val uint64)
    exact congrArg (fun v : Val uint64 => decide (v.bits = 0)) hself
  have hor : convert uint64 (bor (⟨0xFFFFFFFFFFFFFFFF#64 <<< 32⟩ : Val (promoted uint64))
      (⟨imm⟩ : Val uint32)) = ⟨(0xFFFFFFFFFFFFFFFF#64 <<< 32) ||| imm.setWidth 64⟩ := by
    unfold bor
    rw [convert_uint32]
    exact convert_self _
  unfold Checked.signExtend
  simp only [bind, pure, Option.bind, hplace, hmask, hones, hmasked, hsign, hor]
  unfold signExtend
  by_cases h : imm.setWidth 64 &&& (1#64 <<< 31) = 0
  · simp only [h, decide_true, ne_eq, not_true_eq_false, if_false, Bool.not_true,
      Bool.false_eq_true, convert_uint32]
  · simp only [h, decide_false, ne_eq, not_false_eq_true, if_true, Bool.not_false]

/-- So is that of a value of 32 bits, with a sign or without. -/
theorem sign_extend32_checked {s : Bool} (e : Val ⟨32, s⟩) :
    Checked.signExtend32 e = some ⟨signExtend e.bits 32⟩ := by
  refine (sign_extend_checked (convert uint32 e).bits).trans ?_
  rw [convert_bits]

/-- An operator on two `int32_t` is defined where its result is one. -/
theorem int32_arith (f : Int → Int → Int) (rs1 rs2 : Val int32) :
    arith f rs1 rs2 =
      if int32.Represents (f rs1.bits.toInt rs2.bits.toInt) then
        some (ofInt int32 (f rs1.bits.toInt rs2.bits.toInt)) else none := by
  have hw : 0 < (common int32 int32).width := by decide
  exact (arith_exact hw (represents_number rs1) (represents_number rs2)).trans (exact_signed rfl _)

theorem word_arith_checked (f : Int → Int → Int) (x y : BitVec 64) :
    Checked.wordArith (arith f) ⟨x⟩ ⟨y⟩ =
      if int32.Represents (f (low x).toInt (low y).toInt) then
        some ⟨signExtend (BitVec.ofInt 32 (f (low x).toInt (low y).toInt)) 32⟩ else none := by
  unfold Checked.wordArith
  rw [convert_uint64, convert_uint64, int32_arith]
  split
  · rename_i hyes
    have hyes' : int32.Represents (f (low x).toInt (low y).toInt) := hyes
    rw [if_pos hyes']
    exact sign_extend32_checked _
  · rename_i hno
    exact (if_neg hno).symm

section
variable (x y : BitVec 64)

theorem addw_checked : Checked.addw ⟨x⟩ ⟨y⟩ =
    if int32.Represents ((low x).toInt + (low y).toInt) then
      some ⟨wordOp (fun rs1 rs2 => rs1 + rs2) x y⟩ else none := by
  refine (word_arith_checked (· + ·) x y).trans ?_
  rw [BitVec.ofInt_add, BitVec.ofInt_toInt, BitVec.ofInt_toInt]
  rfl

theorem subw_checked : Checked.subw ⟨x⟩ ⟨y⟩ =
    if int32.Represents ((low x).toInt - (low y).toInt) then
      some ⟨wordOp (fun rs1 rs2 => rs1 - rs2) x y⟩ else none := by
  refine (word_arith_checked (· - ·) x y).trans ?_
  rw [Int.sub_eq_add_neg, BitVec.ofInt_add, BitVec.ofInt_neg, BitVec.ofInt_toInt,
    BitVec.ofInt_toInt, ← BitVec.sub_eq_add_neg]
  rfl

theorem mulw_checked : Checked.mulw ⟨x⟩ ⟨y⟩ =
    if int32.Represents ((low x).toInt * (low y).toInt) then
      some ⟨wordOp (fun rs1 rs2 => rs1 * rs2) x y⟩ else none := by
  have hmul : CInt.mul (convert int32 (⟨x⟩ : Val uint64)) (convert int32 (⟨y⟩ : Val uint64)) =
      if int32.Represents ((low x).toInt * (low y).toInt) then
        some ⟨low x * low y⟩ else none := by
    rw [convert_uint64, convert_uint64]
    refine (int32_arith (· * ·) _ _).trans ?_
    unfold ofInt
    rw [BitVec.ofInt_mul, BitVec.ofInt_toInt, BitVec.ofInt_toInt]
    rfl
  -- the product is widened and cut again
  have hback : convert int32 (convert int64 (⟨low x * low y⟩ : Val int32)) = ⟨low x * low y⟩ := by
    rw [convert_int32, convert_int64, BitVec.signExtend_eq_setWidth_of_le _ (by decide)]
    exact congrArg Val.mk (low_sign_extend _)
  unfold Checked.mulw
  rw [hmul]
  split
  · refine Eq.trans (congrArg Checked.signExtend32 hback) ?_
    exact sign_extend32_checked _
  · rfl

end

/-! The amounts of the shifts. -/

section
variable (y : BitVec 64)

theorem uint8_promoted (v : Val uint8) : (convert (promoted uint8) v).number = v.bits.toNat := by
  have hv : v.bits.toNat < 256 := v.bits.isLt
  have hrep : (promoted uint8).Represents v.number := by
    rw [number_unsigned rfl]
    change (-2147483648 : Int) ≤ v.bits.toNat ∧ (v.bits.toNat : Int) < 2147483648
    omega
  rw [number_convert (by decide) hrep, number_unsigned rfl]

/-- Under a mask of at most seven bits, the low byte is enough of the register. -/
theorem masked_amount {n : Nat} (hn : n < 8) :
    (Checked.shiftAmount ((2 ^ n - 1 : Nat) : Int) ⟨y⟩).bits.toNat = y.toNat % 2 ^ n := by
  have hpow : 2 ^ n ≤ 2 ^ 7 := Nat.pow_le_pow_right (by omega) (by omega)
  have hdvd : 2 ^ n ∣ 2 ^ 8 := Nat.pow_dvd_pow 2 (by omega)
  have hmask : (convert (common uint8 int32) (Checked.lit ((2 ^ n - 1 : Nat) : Int))).bits.toNat =
      2 ^ n - 1 := by
    change (convert int32 (Checked.lit ((2 ^ n - 1 : Nat) : Int))).bits.toNat = 2 ^ n - 1
    rw [convert_self]
    change (BitVec.ofInt 32 ((2 ^ n - 1 : Nat) : Int)).toNat = 2 ^ n - 1
    rw [BitVec.ofInt_natCast, BitVec.toNat_ofNat]
    omega
  unfold Checked.shiftAmount band
  rw [convert_signed rfl, BitVec.signExtend_eq_setWidth_of_le _ (by decide), convert_uint64,
    convert_uint8, BitVec.toNat_setWidth, BitVec.toNat_and, hmask, BitVec.toNat_setWidth,
    BitVec.toNat_setWidth, Nat.and_two_pow_sub_one_eq_mod]
  change y.toNat % 2 ^ 8 % 2 ^ 32 % 2 ^ n % 2 ^ 8 = y.toNat % 2 ^ n
  have hbyte := Nat.mod_lt y.toNat (Nat.two_pow_pos 8)
  have hamount := Nat.mod_lt y.toNat (Nat.two_pow_pos n)
  rw [Nat.mod_eq_of_lt (Nat.lt_trans hbyte (by decide)), Nat.mod_mod_of_dvd _ hdvd]
  exact Nat.mod_eq_of_lt (by omega)

theorem masked_imm : (Checked.shamt ⟨y⟩).bits.toNat = y.toNat % 2 ^ 5 := by
  have hmask : (convert (common uint64 int32) (Checked.lit 0x1F)).bits.toNat = 2 ^ 5 - 1 := by
    decide
  unfold Checked.shamt band
  rw [convert_unsigned rfl, convert_uint64, BitVec.toNat_setWidth, BitVec.toNat_and, hmask,
    BitVec.toNat_setWidth, Nat.and_two_pow_sub_one_eq_mod]
  change y.toNat % 2 ^ 64 % 2 ^ 5 % 2 ^ 8 = y.toNat % 2 ^ 5
  omega

end

section
variable (x y : BitVec 64)

theorem register_amount : (convert (promoted uint8) (Checked.shiftAmount 0x1F ⟨y⟩)).number =
    (shamt5 y : Nat) := by
  rw [uint8_promoted, shamt5_eq]
  exact congrArg Nat.cast (masked_amount y (n := 5) (by omega))

theorem imm_amount : (convert (promoted uint8) (Checked.shamt ⟨y⟩)).number = (shamt5 y : Nat) := by
  rw [uint8_promoted, shamt5_eq]
  exact congrArg Nat.cast (masked_imm y)

theorem shamt5_lt : shamt5 y < 32 := by
  rw [shamt5_eq]
  exact Nat.mod_lt _ (by decide)

theorem unsigned_word :
    (convert (promoted uint32) (convert uint32 (⟨x⟩ : Val uint64))).bits = x.setWidth 32 := by
  rw [convert_uint32, convert_uint64]
  exact BitVec.setWidth_eq _

theorem signed_word :
    (convert (promoted int32) (convert int32 (⟨x⟩ : Val uint64))).bits = x.setWidth 32 := by
  rw [convert_int32, convert_uint64]
  exact BitVec.signExtend_eq _

theorem sllw_checked :
    Checked.sllw ⟨x⟩ ⟨y⟩ = some ⟨signExtend (x.setWidth 32 <<< shamt5 y) 32⟩ := by
  unfold Checked.sllw
  rw [shl_unsigned (s := uint32) (register_amount y) (shamt5_lt y) rfl, unsigned_word]
  exact sign_extend32_checked _

theorem srlw_checked :
    Checked.srlw ⟨x⟩ ⟨y⟩ = some ⟨signExtend (x.setWidth 32 >>> shamt5 y) 32⟩ := by
  unfold Checked.srlw
  rw [shr_unsigned (s := uint32) (register_amount y) (shamt5_lt y) rfl, unsigned_word]
  exact sign_extend32_checked _

theorem sraw_checked : Checked.sraw ⟨x⟩ ⟨y⟩ =
    some ⟨signExtend ((x.setWidth 32).sshiftRight (y &&& 0xF).toNat) 32⟩ := by
  have hamount : (convert (promoted uint8) (Checked.shiftAmount 0xF ⟨y⟩)).number =
      ((y &&& 0xF).toNat : Nat) := by
    rw [uint8_promoted, shamt4_eq]
    exact congrArg Nat.cast (masked_amount y (n := 4) (by omega))
  have hlt : (y &&& 0xF).toNat < (promoted int32).width := by
    rw [shamt4_eq]
    exact Nat.lt_trans (Nat.mod_lt _ (by decide)) (by decide : 16 < 32)
  unfold Checked.sraw
  rw [shr_signed hamount hlt rfl, signed_word]
  exact sign_extend32_checked _

theorem slliw_checked :
    Checked.slliw ⟨x⟩ ⟨y⟩ = some ⟨signExtend (x.setWidth 32 <<< shamt5 y) 32⟩ := by
  unfold Checked.slliw
  rw [shl_unsigned (s := uint32) (imm_amount y) (shamt5_lt y) rfl, unsigned_word]
  exact sign_extend32_checked _

theorem srliw_checked :
    Checked.srliw ⟨x⟩ ⟨y⟩ = some ⟨signExtend (x.setWidth 32 >>> shamt5 y) 32⟩ := by
  unfold Checked.srliw
  rw [shr_unsigned (s := uint32) (imm_amount y) (shamt5_lt y) rfl, unsigned_word]
  exact sign_extend32_checked _

theorem sraiw_checked : Checked.sraiw ⟨x⟩ ⟨y⟩ =
    some ⟨signExtend ((x.setWidth 32).sshiftRight (shamt5 y)) 32⟩ := by
  unfold Checked.sraiw
  rw [shr_signed (s := int32) (imm_amount y) (shamt5_lt y) rfl, signed_word]
  refine Eq.trans (congrArg Checked.signExtend32 (convert_self (t := int32) _)) ?_
  exact sign_extend32_checked _

theorem addiw_checked : Checked.addiw ⟨x⟩ ⟨y⟩ =
    some ⟨wordOp (fun rs1 imm => rs1 + imm) x y⟩ := by
  unfold Checked.addiw
  have hadd : CInt.add (convert uint32 (⟨x⟩ : Val uint64)) (convert int32 (⟨y⟩ : Val uint64)) =
      some ⟨x.setWidth 32 + y.setWidth 32⟩ := by
    have hy : (convert uint32 (convert int32 (⟨y⟩ : Val uint64))).bits = y.setWidth 32 := by
      rw [convert_int32, convert_uint64]
      exact BitVec.signExtend_eq _
    refine (add_unsigned rfl).trans ?_
    exact congrArg₂ (fun a b : BitVec 32 => some (⟨a + b⟩ : Val uint32)) (unsigned_word x) hy
  rw [hadd]
  refine Eq.trans (congrArg Checked.signExtend32 (convert_self (t := uint32) _)) ?_
  exact sign_extend32_checked _

theorem mul_checked : Checked.mul ⟨x⟩ ⟨y⟩ = some ⟨x * y⟩ := by
  have hself (z : BitVec 64) : (convert uint64 (⟨z⟩ : Val uint64)).bits = z := by
    rw [convert_self]
  have hmul : CInt.mul (⟨x⟩ : Val uint64) (⟨y⟩ : Val uint64) = some ⟨x * y⟩ := by
    refine (mul_some fun hs => absurd hs (by decide)).trans ?_
    exact congrArg₂ (fun a b : BitVec 64 => some (⟨a * b⟩ : Val uint64)) (hself x) (hself y)
  unfold Checked.mul
  rw [hmul]
  exact congrArg some (convert_self (t := uint64) _)

/-- A product of a signed number of 64 bits and any number of 64 bits has 128. -/
theorem product_represented {a b : Int} (ha : -2 ^ 63 ≤ a ∧ a < 2 ^ 63)
    (hb : -2 ^ 63 ≤ b ∧ b < 2 ^ 64) : int128.Represents (a * b) := by
  obtain ⟨hal, hau⟩ := ha
  obtain ⟨hbl, hbu⟩ := hb
  change (-2 ^ 127 ≤ a * b ∧ a * b < 2 ^ 127)
  rcases Int.le_total 0 b with h0 | h0
  · have hlow := Int.mul_le_mul_of_nonneg_right hal h0
    have hhigh := Int.mul_le_mul_of_nonneg_right (Int.le_sub_one_of_lt hau) h0
    omega
  · have hlow := Int.mul_le_mul_of_nonpos_right hal h0
    have hhigh := Int.mul_le_mul_of_nonpos_right (Int.le_sub_one_of_lt hau) h0
    omega

/-- The upper half, as the handlers with a signed product take it. -/
theorem high_half_checked (product : BitVec 128) :
    (do
      let high ← shr (convert int128 (⟨product⟩ : Val int128)) (Checked.lit 64)
      return convert uint64 (convert int64 high)) = some (⟨highHalf product⟩ : Val uint64) := by
  have hamount : (convert (promoted int32) (Checked.lit 64)).number = (64 : Nat) := by decide
  have hself : (convert (promoted int128) (convert int128 (⟨product⟩ : Val int128))).bits =
      product := by
    rw [convert_int128, convert_int128, BitVec.signExtend_eq]
    exact BitVec.signExtend_eq _
  have hcut (z : BitVec 128) : convert uint64 (convert int64 (⟨z⟩ : Val int128)) =
      ⟨z.setWidth 64⟩ := by
    have hlow : convert int64 (⟨z⟩ : Val int128) = ⟨z.setWidth 64⟩ := by
      rw [convert_int128, BitVec.signExtend_eq_setWidth_of_le _ (by decide)]
    rw [hlow, convert_int64, BitVec.signExtend_eq]
  rw [shr_signed (s := int128) hamount (by decide) rfl, hself]
  exact congrArg some (hcut _)

theorem signed_wide (z : BitVec 64) :
    convert int128 (convert int64 (⟨z⟩ : Val uint64)) = ⟨z.signExtend 128⟩ := by
  rw [convert_int64, convert_uint64]
  exact congrArg (fun b : BitVec 64 => (⟨b.signExtend 128⟩ : Val int128)) (BitVec.setWidth_eq z)

/-- A signed factor of 64 bits and one of either sign. -/
theorem wide_product {s : Bool} (rs2 : Val ⟨64, s⟩) :
    CInt.mul (⟨x.signExtend 128⟩ : Val int128) rs2 =
      some (⟨x.signExtend 128 * (convert int128 rs2).bits⟩ : Val int128) := by
  have hself : convert int128 (⟨x.signExtend 128⟩ : Val int128) = ⟨x.signExtend 128⟩ :=
    convert_self _
  have hx : (⟨x.signExtend 128⟩ : Val int128).number = x.toInt :=
    (number_signed rfl _).trans (BitVec.toInt_signExtend_of_le (by decide))
  have hbounds : -2 ^ 63 ≤ rs2.number ∧ rs2.number < 2 ^ 64 := by
    have h := represents_number rs2
    cases s with
    | true => exact ⟨h.1, Int.lt_trans h.2 (by decide)⟩
    | false => exact ⟨Int.le_trans (by decide) h.1, h.2⟩
  have hy : (convert int128 rs2).number = rs2.number := by
    refine number_convert (by decide) ?_
    change -2 ^ 127 ≤ rs2.number ∧ rs2.number < 2 ^ 127
    omega
  have hrep : int128.Represents (x.toInt * rs2.number) :=
    product_represented ⟨x.le_toInt, x.toInt_lt⟩ hbounds
  refine (mul_some (fun _ => ?_)).trans ?_
  · change int128.Represents ((convert int128 (⟨x.signExtend 128⟩ : Val int128)).number *
      (convert int128 rs2).number)
    rwa [hself, hx, hy]
  · change some (⟨(convert int128 (⟨x.signExtend 128⟩ : Val int128)).bits *
      (convert int128 rs2).bits⟩ : Val int128) = _
    rw [hself]

theorem mulh_checked : Checked.mulh ⟨x⟩ ⟨y⟩ =
    some ⟨highHalf (x.signExtend 128 * y.signExtend 128)⟩ := by
  have hmul := wide_product x (convert int64 (⟨y⟩ : Val uint64))
  rw [signed_wide] at hmul
  unfold Checked.mulh
  rw [signed_wide]
  refine Eq.trans (congrArg (Option.bind · _) hmul) ?_
  exact (Option.bind_some _ _).trans (high_half_checked _)

theorem mulhsu_checked : Checked.mulhsu ⟨x⟩ ⟨y⟩ =
    some ⟨highHalf (x.signExtend 128 * y.setWidth 128)⟩ := by
  have hmul := wide_product x (⟨y⟩ : Val uint64)
  rw [convert_uint64] at hmul
  unfold Checked.mulhsu
  rw [signed_wide]
  refine Eq.trans (congrArg (Option.bind · _) hmul) ?_
  exact (Option.bind_some _ _).trans (high_half_checked _)

theorem mulhu_checked : Checked.mulhu ⟨x⟩ ⟨y⟩ =
    some ⟨((x.setWidth 128 * y.setWidth 128) >>> 64).setWidth 64⟩ := by
  have hself (z : BitVec 128) : (convert uint128 (⟨z⟩ : Val uint128)).bits = z := by
    rw [convert_self]
  have hmul : CInt.mul (⟨x.setWidth 128⟩ : Val uint128) (⟨y⟩ : Val uint64) =
      some (⟨x.setWidth 128 * y.setWidth 128⟩ : Val uint128) := by
    refine (mul_some fun hs => absurd hs (by decide)).trans ?_
    change some (⟨(convert uint128 (⟨x.setWidth 128⟩ : Val uint128)).bits *
      (convert uint128 (⟨y⟩ : Val uint64)).bits⟩ : Val uint128) = _
    rw [hself, convert_uint64]
  have hamount : (convert (promoted int32) (Checked.lit 64)).number = (64 : Nat) := by decide
  have hwide (z : BitVec 128) :
      (convert (promoted uint128) (convert uint128 (⟨z⟩ : Val uint128))).bits = z := by
    rw [convert_self]
    exact hself z
  have hcut (z : BitVec 128) : convert uint64 (convert uint64 (⟨z⟩ : Val uint128)) =
      ⟨z.setWidth 64⟩ := by
    rw [convert_self, convert_uint128]
  unfold Checked.mulhu
  rw [convert_uint64]
  refine Eq.trans (congrArg (Option.bind · _) hmul) ?_
  refine (Option.bind_some _ _).trans ?_
  have hshift := shr_unsigned (s := uint128) hamount (by decide) rfl
    (x := convert uint128 (⟨x.setWidth 128 * y.setWidth 128⟩ : Val uint128))
  rw [hwide] at hshift
  refine Eq.trans (congrArg (Option.bind · _) hshift) ?_
  exact (Option.bind_some _ _).trans (congrArg some (hcut _))

end

/-! The divisions, with the comparisons that guard them. -/

theorem eq_zero64 {s : Bool} (v : Val ⟨64, s⟩) :
    CInt.eq v (Checked.lit 0) = decide (v.bits = 0) :=
  eq_of_bits (congrArg Val.bits (convert_self v)) rfl

theorem eq_zero32 {s : Bool} (v : Val ⟨32, s⟩) :
    CInt.eq v (Checked.lit 0) = decide (v.bits = 0) := by
  cases s with
  | true => exact eq_of_bits (congrArg Val.bits (convert_self v)) rfl
  | false => exact eq_of_bits (congrArg Val.bits (convert_self v)) rfl

theorem overflows64 (v w : Val int64) :
    (CInt.eq v (ofInt int64 (-2 ^ 63)) && CInt.eq w (Checked.lit (-1))) =
      decide (v.bits = BitVec.intMin 64 ∧ w.bits = BitVec.allOnes 64) := by
  have hleast : CInt.eq v (ofInt int64 (-2 ^ 63)) = decide (v.bits = BitVec.intMin 64) :=
    eq_of_bits (congrArg Val.bits (convert_self v)) rfl
  have hminus : CInt.eq w (Checked.lit (-1)) = decide (w.bits = BitVec.allOnes 64) :=
    eq_of_bits (congrArg Val.bits (convert_self w)) rfl
  rw [hleast, hminus, Bool.decide_and]

theorem overflows32 (v w : Val int32) :
    (CInt.eq v (ofInt int32 (-2 ^ 31)) && CInt.eq w (Checked.lit (-1))) =
      decide (v.bits = BitVec.intMin 32 ∧ w.bits = BitVec.allOnes 32) := by
  have hleast : CInt.eq v (ofInt int32 (-2 ^ 31)) = decide (v.bits = BitVec.intMin 32) :=
    eq_of_bits (congrArg Val.bits (convert_self v)) rfl
  have hminus : CInt.eq w (Checked.lit (-1)) = decide (w.bits = BitVec.allOnes 32) :=
    eq_of_bits (congrArg Val.bits (convert_self w)) rfl
  rw [hleast, hminus, Bool.decide_and]

section
variable {s t u v : CType} {overflow zero : Prop} [Decidable overflow] [Decidable zero]

/-- Either arm of the conditional, once the operator is defined where it is
reached. -/
theorem unless_zero_some {rs2 : Val s} (onZero : Val u) {f : Option (Val v)} {q : Val v}
    (hzero : CInt.eq rs2 (Checked.lit 0) = decide zero) (hq : ¬ zero → f = some q) :
    Checked.unlessZero rs2 onZero f =
      some (if zero then convert (common u v) onZero else convert (common u v) q) := by
  unfold Checked.unlessZero
  rw [hzero]
  by_cases h : zero
  · rw [if_pos h, if_pos (decide_eq_true h)]
  · rw [if_neg h, hq h, decide_eq_false h]
    rfl

/-- So with the arm for the quotient that overflows. -/
theorem signed_division_some (result : CType) {least : Int} (onOverflow : Val t)
    (onZero : Val s → Val u) (op : Val s → Val s → Option (Val v)) (rs1 rs2 : Val s) (q : Val v)
    (hov : (CInt.eq rs1 (ofInt s least) && CInt.eq rs2 (Checked.lit (-1))) = decide overflow)
    (hzero : CInt.eq rs2 (Checked.lit 0) = decide zero)
    (hq : ¬ overflow → ¬ zero → op rs1 rs2 = some q) :
    Checked.signedDivision result least onOverflow
        (fun rs1 rs2 => Checked.unlessZero rs2 (onZero rs1) (op rs1 rs2)) rs1 rs2 =
      some (if overflow then convert result onOverflow
        else if zero then convert result (convert (common u v) (onZero rs1))
        else convert result (convert (common u v) q)) := by
  unfold Checked.signedDivision
  rw [hov]
  by_cases h : overflow
  · rw [if_pos h, if_pos (decide_eq_true h)]
  · have harms := unless_zero_some (onZero rs1) hzero (hq h)
    rw [if_neg h, decide_eq_false h]
    refine Eq.trans (congrArg (Option.map (convert result)) harms) ?_
    refine congrArg some ?_
    split <;> rfl

end

/-- Two functions that agree on the arms of a conditional. -/
theorem arm_eq {α β γ : Type} (f : α → γ) (g : β → γ) {p : Prop} [Decidable p] {a b : α} {a' b' : β}
    (ha : f a = g a') (hb : f b = g b') : f (if p then a else b) = g (if p then a' else b') := by
  split
  · exact ha
  · exact hb

section
variable (x y : BitVec 64)

theorem signed_register : convert int64 (⟨x⟩ : Val uint64) = ⟨x⟩ := convert_bits true _

theorem int64_self : (convert (common int64 int64) (⟨x⟩ : Val int64)).bits = x :=
  congrArg Val.bits (convert_self (⟨x⟩ : Val int64))

theorem uint64_self : (convert (common uint64 uint64) (⟨x⟩ : Val uint64)).bits = x :=
  congrArg Val.bits (convert_self (⟨x⟩ : Val uint64))

theorem div_checked : Checked.div ⟨x⟩ ⟨y⟩ = some ⟨guardedDiv x y⟩ := by
  have hquot : ¬ (x = BitVec.intMin 64 ∧ y = BitVec.allOnes 64) → y ≠ 0 →
      CInt.div (⟨x⟩ : Val int64) (⟨y⟩ : Val int64) = some ⟨x.sdiv y⟩ := by
    intro hov h0
    have hdiv := div_signed (x := (⟨x⟩ : Val int64)) (y := (⟨y⟩ : Val int64)) rfl
    rw [int64_self, int64_self] at hdiv
    exact hdiv h0 hov
  have hresult := signed_division_some (s := int64) int64 (ofInt int64 (-2 ^ 63))
    (fun _ => Checked.ones) CInt.div ⟨x⟩ ⟨y⟩ (⟨x.sdiv y⟩ : Val int64)
    (overflows64 ⟨x⟩ ⟨y⟩) (eq_zero64 (s := true) ⟨y⟩) hquot
  have hback (z : BitVec 64) : convert uint64 (convert int64 (convert uint64 (⟨z⟩ : Val int64))) =
      ⟨z⟩ := by
    rw [convert_bits, convert_bits, convert_bits]
  unfold Checked.div
  rw [signed_register, signed_register]
  refine Eq.trans (congrArg (Option.bind · _) hresult) ?_
  refine (Option.bind_some _ _).trans (congrArg some ?_)
  exact arm_eq (convert uint64) Val.mk (by decide)
    (arm_eq (convert uint64) Val.mk (by decide) (hback _))

theorem rem_checked : Checked.rem ⟨x⟩ ⟨y⟩ = some ⟨guardedRem x y⟩ := by
  have hquot : ¬ (x = BitVec.intMin 64 ∧ y = BitVec.allOnes 64) → y ≠ 0 →
      CInt.rem (⟨x⟩ : Val int64) (⟨y⟩ : Val int64) = some ⟨x.srem y⟩ := by
    intro hov h0
    have hrem := rem_signed (x := (⟨x⟩ : Val int64)) (y := (⟨y⟩ : Val int64)) rfl
    rw [int64_self, int64_self] at hrem
    exact hrem h0 hov
  have hresult := signed_division_some (s := int64) int64 (Checked.lit 0) id CInt.rem ⟨x⟩ ⟨y⟩
    (⟨x.srem y⟩ : Val int64) (overflows64 ⟨x⟩ ⟨y⟩) (eq_zero64 (s := true) ⟨y⟩) hquot
  have hback (z : BitVec 64) : convert uint64 (convert int64 (convert int64 (⟨z⟩ : Val int64))) =
      ⟨z⟩ := by
    rw [convert_bits, convert_bits, convert_bits]
  unfold Checked.rem
  rw [signed_register, signed_register]
  refine Eq.trans (congrArg (Option.bind · _) hresult) ?_
  refine (Option.bind_some _ _).trans (congrArg some ?_)
  exact arm_eq (convert uint64) Val.mk (by decide)
    (arm_eq (convert uint64) Val.mk (hback _) (hback _))

theorem divu_checked : Checked.divu ⟨x⟩ ⟨y⟩ = some ⟨guardedDivu x y⟩ := by
  have hquot : y ≠ 0 → CInt.div (⟨x⟩ : Val uint64) (⟨y⟩ : Val uint64) = some ⟨x / y⟩ := by
    intro h0
    have hdiv := div_unsigned (x := (⟨x⟩ : Val uint64)) (y := (⟨y⟩ : Val uint64)) rfl
    rw [uint64_self, uint64_self] at hdiv
    exact hdiv h0
  have hresult := unless_zero_some Checked.ones (eq_zero64 (s := false) ⟨y⟩) hquot
  unfold Checked.divu
  refine Eq.trans (congrArg (Option.bind · _) hresult) ?_
  refine (Option.bind_some _ _).trans (congrArg some ?_)
  have hback (z : BitVec 64) : convert uint64 (convert uint64 (⟨z⟩ : Val uint64)) = ⟨z⟩ := by
    rw [convert_bits, convert_bits]
  exact arm_eq (convert uint64) Val.mk (by decide) (hback _)

theorem remu_checked : Checked.remu ⟨x⟩ ⟨y⟩ = some ⟨guardedRemu x y⟩ := by
  have hquot : y ≠ 0 → CInt.rem (⟨x⟩ : Val uint64) (⟨y⟩ : Val uint64) = some ⟨x % y⟩ := by
    intro h0
    have hrem := rem_unsigned (x := (⟨x⟩ : Val uint64)) (y := (⟨y⟩ : Val uint64)) rfl
    rw [uint64_self, uint64_self] at hrem
    exact hrem h0
  have hresult := unless_zero_some (⟨x⟩ : Val uint64) (eq_zero64 (s := false) ⟨y⟩) hquot
  have hback (z : BitVec 64) : convert uint64 (convert int64 (convert uint64 (⟨z⟩ : Val uint64))) =
      ⟨z⟩ := by
    rw [convert_bits, convert_bits, convert_bits]
  unfold Checked.remu
  refine Eq.trans (congrArg (Option.bind · _) hresult) ?_
  refine (Option.bind_some _ _).trans (congrArg some ?_)
  exact arm_eq (fun v => convert uint64 (convert int64 v)) Val.mk (hback _) (hback _)

theorem int32_self (z : BitVec 32) : (convert (common int32 int32) (⟨z⟩ : Val int32)).bits = z :=
  congrArg Val.bits (convert_self (⟨z⟩ : Val int32))

theorem uint32_self (z : BitVec 32) :
    (convert (common uint32 uint32) (⟨z⟩ : Val uint32)).bits = z :=
  congrArg Val.bits (convert_self (⟨z⟩ : Val uint32))

/-- A word that has been widened comes back. -/
theorem widened_signed (z : BitVec 32) :
    (convert int32 (convert int64 (⟨z⟩ : Val int32))).bits = z := by
  rw [convert_int64, convert_int32, BitVec.signExtend_eq_setWidth_of_le _ (by decide)]
  exact low_sign_extend z

theorem widened_unsigned (z : BitVec 32) :
    (convert uint32 (convert uint64 (⟨z⟩ : Val uint32))).bits = z := by
  rw [convert_uint64, convert_uint32]
  exact BitVec.setWidth_setWidth_of_le z (show 32 ≤ 64 by decide)

theorem divw_checked : Checked.divw ⟨x⟩ ⟨y⟩ = some ⟨wordOp guardedDiv x y⟩ := by
  have hquot : ¬ (low x = BitVec.intMin 32 ∧ low y = BitVec.allOnes 32) → low y ≠ 0 →
      CInt.div (⟨low x⟩ : Val int32) (⟨low y⟩ : Val int32) = some ⟨(low x).sdiv (low y)⟩ := by
    intro hov h0
    have hdiv := div_signed (x := (⟨low x⟩ : Val int32)) (y := (⟨low y⟩ : Val int32)) rfl
    rw [int32_self, int32_self] at hdiv
    exact hdiv h0 hov
  have hresult := signed_division_some (s := int32) int64 (ofInt int32 (-2 ^ 31))
    (fun _ => Checked.ones) CInt.div ⟨low x⟩ ⟨low y⟩ (⟨(low x).sdiv (low y)⟩ : Val int32)
    (overflows32 ⟨low x⟩ ⟨low y⟩) (eq_zero32 (s := true) ⟨low y⟩) hquot
  have hback (z : BitVec 32) :
      (convert int32 (convert int64 (convert uint64 (⟨z⟩ : Val int32)))).bits = z := by
    have hwide : convert int64 (convert uint64 (⟨z⟩ : Val int32)) =
        convert int64 (⟨z⟩ : Val int32) := by
      rw [convert_int32, convert_int32, convert_bits]
    rw [hwide, widened_signed]
  unfold Checked.divw
  rw [convert_uint64, convert_uint64]
  refine Eq.trans (congrArg (Option.bind · _) hresult) ?_
  refine (Option.bind_some _ _).trans ((sign_extend32_checked _).trans ?_)
  refine congrArg (fun z : BitVec 32 => some (⟨signExtend z 32⟩ : Val uint64)) ?_
  exact arm_eq (fun v => (convert int32 v).bits) id (by decide)
    (arm_eq (fun v => (convert int32 v).bits) id (by decide) (hback _))

theorem remw_checked : Checked.remw ⟨x⟩ ⟨y⟩ = some ⟨wordOp guardedRem x y⟩ := by
  have hquot : ¬ (low x = BitVec.intMin 32 ∧ low y = BitVec.allOnes 32) → low y ≠ 0 →
      CInt.rem (⟨low x⟩ : Val int32) (⟨low y⟩ : Val int32) = some ⟨(low x).srem (low y)⟩ := by
    intro hov h0
    have hrem := rem_signed (x := (⟨low x⟩ : Val int32)) (y := (⟨low y⟩ : Val int32)) rfl
    rw [int32_self, int32_self] at hrem
    exact hrem h0 hov
  have hresult := signed_division_some (s := int32) int64 (Checked.lit 0) id CInt.rem ⟨low x⟩
    ⟨low y⟩ (⟨(low x).srem (low y)⟩ : Val int32) (overflows32 ⟨low x⟩ ⟨low y⟩)
    (eq_zero32 (s := true) ⟨low y⟩) hquot
  have hback (z : BitVec 32) :
      (convert int32 (convert int64 (convert int32 (⟨z⟩ : Val int32)))).bits = z := by
    rw [convert_self, widened_signed]
  unfold Checked.remw
  rw [convert_uint64, convert_uint64]
  refine Eq.trans (congrArg (Option.bind · _) hresult) ?_
  refine (Option.bind_some _ _).trans ((sign_extend32_checked _).trans ?_)
  refine congrArg (fun z : BitVec 32 => some (⟨signExtend z 32⟩ : Val uint64)) ?_
  exact arm_eq (fun v => (convert int32 v).bits) id (by decide)
    (arm_eq (fun v => (convert int32 v).bits) id (hback _) (hback _))

/-- The arms of the unsigned divisions of words, which are widened before they
are sign-extended. -/
theorem sign_extend32_widened (e : Val uint64) :
    Checked.signExtend32 e = some ⟨signExtend (convert uint32 e).bits 32⟩ :=
  sign_extend_checked (convert uint32 e).bits

theorem divuw_checked : Checked.divuw ⟨x⟩ ⟨y⟩ = some ⟨wordOp guardedDivu x y⟩ := by
  have hquot : low y ≠ 0 →
      CInt.div (⟨low x⟩ : Val uint32) (⟨low y⟩ : Val uint32) = some ⟨low x / low y⟩ := by
    intro h0
    have hdiv := div_unsigned (x := (⟨low x⟩ : Val uint32)) (y := (⟨low y⟩ : Val uint32)) rfl
    rw [uint32_self, uint32_self] at hdiv
    exact hdiv h0
  have hresult := unless_zero_some (ofInt uint32 0xFFFFFFFF) (eq_zero32 (s := false) ⟨low y⟩) hquot
  have hback (z : BitVec 32) :
      (convert uint32 (convert uint64 (convert uint32 (⟨z⟩ : Val uint32)))).bits = z := by
    rw [convert_self, widened_unsigned]
  unfold Checked.divuw
  rw [convert_uint64, convert_uint64]
  refine Eq.trans (congrArg (Option.bind · _) hresult) ?_
  refine (Option.bind_some _ _).trans ((sign_extend32_widened _).trans ?_)
  refine congrArg (fun z : BitVec 32 => some (⟨signExtend z 32⟩ : Val uint64)) ?_
  exact arm_eq (fun v => (convert uint32 (convert uint64 v)).bits) id (by decide) (hback _)

theorem remuw_checked : Checked.remuw ⟨x⟩ ⟨y⟩ = some ⟨wordOp guardedRemu x y⟩ := by
  have hquot : low y ≠ 0 →
      CInt.rem (⟨low x⟩ : Val uint32) (⟨low y⟩ : Val uint32) = some ⟨low x % low y⟩ := by
    intro h0
    have hrem := rem_unsigned (x := (⟨low x⟩ : Val uint32)) (y := (⟨low y⟩ : Val uint32)) rfl
    rw [uint32_self, uint32_self] at hrem
    exact hrem h0
  have hresult := unless_zero_some (convert uint32 (⟨low x⟩ : Val uint32))
    (eq_zero32 (s := false) ⟨low y⟩) hquot
  have hback (z : BitVec 32) :
      (convert uint32 (convert uint64 (convert uint32 (⟨z⟩ : Val uint32)))).bits = z := by
    rw [convert_self, widened_unsigned]
  have hzero (z : BitVec 32) : (convert uint32 (convert uint64 (convert uint32
      (convert uint32 (⟨z⟩ : Val uint32))))).bits = z := by
    rw [convert_self, hback]
  unfold Checked.remuw
  rw [convert_uint64, convert_uint64]
  refine Eq.trans (congrArg (Option.bind · _) hresult) ?_
  refine (Option.bind_some _ _).trans ((sign_extend32_widened _).trans ?_)
  refine congrArg (fun z : BitVec 32 => some (⟨signExtend z 32⟩ : Val uint64)) ?_
  exact arm_eq (fun v => (convert uint32 (convert uint64 v)).bits) id (hzero _) (hback _)

end

section
variable (cpu : Cpu)

theorem register_op_checked {f : Val uint64 → Val uint64 → Option (Val uint64)}
    {g : BitVec 64 → BitVec 64 → BitVec 64} {fits : BitVec 64 → BitVec 64 → Prop}
    [∀ x y, Decidable (fits x y)]
    (hf : ∀ x y, f ⟨x⟩ ⟨y⟩ = if fits x y then some ⟨g x y⟩ else none) (instruction : RType) :
    Checked.registerOp f cpu instruction =
      if fits (cpuReadReg cpu instruction.rs1) (cpuReadReg cpu instruction.rs2) then
        some (registerOp g cpu instruction) else none := by
  unfold Checked.registerOp
  rw [hf]
  split <;> rfl

theorem register_op_some {f : Val uint64 → Val uint64 → Option (Val uint64)}
    {g : BitVec 64 → BitVec 64 → BitVec 64} (hf : ∀ x y, f ⟨x⟩ ⟨y⟩ = some ⟨g x y⟩)
    (instruction : RType) :
    Checked.registerOp f cpu instruction = some (registerOp g cpu instruction) := by
  unfold Checked.registerOp
  rw [hf]
  rfl

theorem immediate_op_some {f : Val uint64 → Val uint64 → Option (Val uint64)}
    {g : BitVec 64 → BitVec 64 → BitVec 64} (hf : ∀ x y, f ⟨x⟩ ⟨y⟩ = some ⟨g x y⟩)
    (instruction : IType) :
    Checked.immediateOp f cpu instruction = some (immediateOp g cpu instruction) := by
  unfold Checked.immediateOp
  rw [hf]
  rfl

theorem dispatch_m_op_checked (instruction : RType) :
    Checked.dispatchMOp cpu instruction = some (dispatchMOp cpu instruction) := by
  unfold Checked.dispatchMOp dispatchMOp
  rcases funct3_values instruction.funct3 with h | h | h | h | h | h | h | h <;> rw [h]
  · exact register_op_some cpu mul_checked instruction
  · exact register_op_some cpu mulh_checked instruction
  · exact register_op_some cpu mulhsu_checked instruction
  · exact register_op_some cpu mulhu_checked instruction
  · exact register_op_some cpu div_checked instruction
  · exact register_op_some cpu divu_checked instruction
  · exact register_op_some cpu rem_checked instruction
  · exact register_op_some cpu remu_checked instruction

theorem dispatch_op_imm32_checked (instruction : IType) :
    Checked.dispatchOpImm32 cpu instruction = some (dispatchOpImm32 cpu instruction) := by
  unfold Checked.dispatchOpImm32 dispatchOpImm32
  rcases funct3_values instruction.funct3 with h | h | h | h | h | h | h | h <;> rw [h]
  · exact immediate_op_some cpu addiw_checked instruction
  · exact immediate_op_some cpu slliw_checked instruction
  · rfl
  · rfl
  · rfl
  · change Checked.sriw cpu instruction = some (sriw cpu instruction)
    unfold Checked.sriw sriw
    split
    · exact immediate_op_some cpu sraiw_checked instruction
    split
    · exact immediate_op_some cpu srliw_checked instruction
    · rfl
  · rfl
  · rfl

/-- The result that ADDW, SUBW or MULW computes as an `int32_t` is one. -/
def ResultFits (instruction : RType) : Prop :=
  let rs1 := (low (cpuReadReg cpu instruction.rs1)).toInt
  let rs2 := (low (cpuReadReg cpu instruction.rs2)).toInt
  instruction.funct3 = 0 →
    (instruction.funct7 = 0b0000000 → int32.Represents (rs1 + rs2)) ∧
    (instruction.funct7 = 0b0100000 → int32.Represents (rs1 - rs2)) ∧
    (instruction.funct7 = 0b0000001 → int32.Represents (rs1 * rs2))

instance (instruction : RType) : Decidable (ResultFits cpu instruction) := by
  unfold ResultFits
  infer_instance

section
variable {cpu} {instruction : RType}

theorem fits_of_nonzero (h : instruction.funct3 ≠ 0) : ResultFits cpu instruction :=
  fun h0 => absurd h0 h

theorem fits_of_other (h0 : instruction.funct7 ≠ 0) (h32 : instruction.funct7 ≠ 0b0100000)
    (h1 : instruction.funct7 ≠ 1) : ResultFits cpu instruction :=
  fun _ => ⟨fun h => absurd h h0, fun h => absurd h h32, fun h => absurd h h1⟩

theorem fits_addw (hf : instruction.funct3 = 0) (h : instruction.funct7 = 0) :
    ResultFits cpu instruction ↔ int32.Represents
      ((low (cpuReadReg cpu instruction.rs1)).toInt +
        (low (cpuReadReg cpu instruction.rs2)).toInt) := by
  simp [ResultFits, hf, h]

theorem fits_subw (hf : instruction.funct3 = 0) (h : instruction.funct7 = 0b0100000) :
    ResultFits cpu instruction ↔ int32.Represents
      ((low (cpuReadReg cpu instruction.rs1)).toInt -
        (low (cpuReadReg cpu instruction.rs2)).toInt) := by
  simp [ResultFits, hf, h]

theorem fits_mulw (hf : instruction.funct3 = 0) (h : instruction.funct7 = 1) :
    ResultFits cpu instruction ↔ int32.Represents
      ((low (cpuReadReg cpu instruction.rs1)).toInt *
        (low (cpuReadReg cpu instruction.rs2)).toInt) := by
  simp [ResultFits, hf, h]

end

theorem dispatch_op32_checked {instruction : RType} (hm : instruction.funct7 ≠ 1) :
    Checked.dispatchOp32 cpu instruction =
      if ResultFits cpu instruction then some (dispatchOp32 cpu instruction) else none := by
  by_cases hf : instruction.funct3 = 0
  · unfold Checked.dispatchOp32 dispatchOp32
    rw [hf]
    by_cases h0 : instruction.funct7 = 0
    · simp only [if_pos h0]
      refine (register_op_checked cpu addw_checked instruction).trans ?_
      exact ite_congr (propext (fits_addw hf h0).symm) (fun _ => rfl) fun _ => rfl
    by_cases h32 : instruction.funct7 = 0b0100000
    · simp only [if_neg h0, if_pos h32]
      refine (register_op_checked cpu subw_checked instruction).trans ?_
      exact ite_congr (propext (fits_subw hf h32).symm) (fun _ => rfl) fun _ => rfl
    · simp only [if_neg h0, if_neg h32]
      exact (if_pos (fits_of_other h0 h32 hm)).symm
  · rw [if_pos (fits_of_nonzero hf)]
    unfold Checked.dispatchOp32 dispatchOp32
    rcases funct3_values instruction.funct3 with h | h | h | h | h | h | h | h
    · exact absurd h hf
    all_goals rw [h]
    · exact register_op_some cpu sllw_checked instruction
    · rfl
    · rfl
    · rfl
    · by_cases h0 : instruction.funct7 = 0
      · simp only [if_pos h0]
        exact register_op_some cpu srlw_checked instruction
      by_cases h32 : instruction.funct7 = 0b0100000
      · simp only [if_neg h0, if_pos h32]
        exact register_op_some cpu sraw_checked instruction
      · simp only [if_neg h0, if_neg h32]
        rfl
    · rfl
    · rfl

theorem dispatch_m_op32_checked {instruction : RType} (hm : instruction.funct7 = 1) :
    Checked.dispatchMOp32 cpu instruction =
      if ResultFits cpu instruction then some (dispatchMOp32 cpu instruction) else none := by
  by_cases hf : instruction.funct3 = 0
  · unfold Checked.dispatchMOp32 dispatchMOp32
    rw [hf]
    refine (register_op_checked cpu mulw_checked instruction).trans ?_
    exact ite_congr (propext (fits_mulw hf hm).symm) (fun _ => rfl) fun _ => rfl
  · rw [if_pos (fits_of_nonzero hf)]
    unfold Checked.dispatchMOp32 dispatchMOp32
    rcases funct3_values instruction.funct3 with h | h | h | h | h | h | h | h
    · exact absurd h hf
    all_goals rw [h]
    · rfl
    · rfl
    · rfl
    · exact register_op_some cpu divw_checked instruction
    · exact register_op_some cpu divuw_checked instruction
    · exact register_op_some cpu remw_checked instruction
    · exact register_op_some cpu remuw_checked instruction

end

/-- What a word needs: only OP-32 has such results. -/
def WordFits (cpu : Cpu) (word : BitVec 32) : Prop :=
  Opcode.ofRaw (opcodeOf word) = some .op32 → ResultFits cpu (decodeR word)

instance (cpu : Cpu) (word : BitVec 32) : Decidable (WordFits cpu word) := by
  unfold WordFits
  infer_instance

theorem dispatcher_checked (vm : Vm) {word : BitVec 32} {run : Cpu → Option Cpu}
    (h : Checked.dispatcherOf word = some run) :
    ∃ cpu, dispatchInstruction vm word = { vm with cpu := cpu } ∧
      run vm.cpu = if WordFits vm.cpu word then some cpu else none := by
  unfold Checked.dispatcherOf at h
  cases hop : Opcode.ofRaw (opcodeOf word) with
  | none =>
    rw [hop] at h
    cases h
  | some opcode =>
    rw [hop] at h
    cases opcode with
    | op =>
      dsimp only at h
      split at h
      · rename_i hm
        cases h
        have hfits : WordFits vm.cpu word := fun hno => by
          rw [hop] at hno
          cases hno
        refine ⟨dispatchMOp vm.cpu (decodeR word), ?_, ?_⟩
        · rw [dispatch_op_word hop]
          exact congrArg (fun cpu => { vm with cpu := cpu }) (if_pos hm)
        · rw [if_pos hfits]
          exact dispatch_m_op_checked vm.cpu _
      · cases h
    | op32 =>
      dsimp only at h
      have hfits : WordFits vm.cpu word ↔ ResultFits vm.cpu (decodeR word) :=
        ⟨fun hw => hw hop, fun hr _ => hr⟩
      split at h
      · rename_i hm
        cases h
        refine ⟨dispatchMOp32 vm.cpu (decodeR word), ?_, ?_⟩
        · rw [dispatch_op32_word hop]
          exact congrArg (fun cpu => { vm with cpu := cpu }) (if_pos hm)
        · refine (dispatch_m_op32_checked vm.cpu hm).trans ?_
          exact ite_congr (propext hfits.symm) (fun _ => rfl) fun _ => rfl
      · rename_i hm
        cases h
        refine ⟨dispatchOp32 vm.cpu (decodeR word), ?_, ?_⟩
        · rw [dispatch_op32_word hop]
          exact congrArg (fun cpu => { vm with cpu := cpu }) (if_neg hm)
        · refine (dispatch_op32_checked vm.cpu hm).trans ?_
          exact ite_congr (propext hfits.symm) (fun _ => rfl) fun _ => rfl
    | opImm32 =>
      cases h
      have hfits : WordFits vm.cpu word := fun hno => by
        rw [hop] at hno
        cases hno
      refine ⟨dispatchOpImm32 vm.cpu (decodeI word), ?_, ?_⟩
      · rw [dispatch_op_imm32_word hop]
        rfl
      · rw [if_pos hfits]
        exact dispatch_op_imm32_checked vm.cpu _
    | _ => cases h

/-- The C code of every OP-32, OP-IMM-32 and M instruction is defined exactly where
no sum, difference or product of ADDW, SUBW or MULW leaves its `int32_t`, and it
then does what its model does. -/
theorem arithmetic_defined_iff (vm : Vm) {word : BitVec 32} {run : Cpu → Option Cpu}
    (h : Checked.dispatcherOf word = some run) :
    ((run vm.cpu).isSome = true ↔ WordFits vm.cpu word) ∧
      ∀ cpu, run vm.cpu = some cpu → dispatchInstruction vm word = { vm with cpu := cpu } := by
  obtain ⟨done, hdone, hrun⟩ := dispatcher_checked vm h
  by_cases hfits : WordFits vm.cpu word
  · rw [if_pos hfits] at hrun
    rw [hrun]
    refine ⟨iff_of_true rfl hfits, fun cpu hcpu => ?_⟩
    cases hcpu
    exact hdone
  · rw [if_neg hfits] at hrun
    rw [hrun]
    exact ⟨iff_of_false Bool.false_ne_true hfits, fun cpu hcpu => absurd hcpu (by simp)⟩

/-- `addw x3, x1, x2` of 1 and 2 -/
theorem small_sum_defined :
    WordFits (withOperands 1 2).cpu 0x002081BB ∧
      (Checked.dispatchOp32 (withOperands 1 2).cpu (decodeR 0x002081BB)).isSome = true := by
  have hfits : WordFits (withOperands 1 2).cpu 0x002081BB := by decide
  have hrun : Checked.dispatcherOf 0x002081BB =
      some fun cpu => Checked.dispatchOp32 cpu (decodeR 0x002081BB) := rfl
  exact ⟨hfits, (arithmetic_defined_iff (withOperands 1 2) hrun).1.mpr hfits⟩

/-- `addw x3, x1, x2` of the greatest word and 1 -/
theorem greatest_sum_undefined :
    ¬ ∀ (vm : Vm) word run,
        Checked.dispatcherOf word = some run → (run vm.cpu).isSome = true := by
  intro h
  have hrun : Checked.dispatcherOf 0x002081BB =
      some fun cpu => Checked.dispatchOp32 cpu (decodeR 0x002081BB) := rfl
  have hsum := h (withOperands 0x7FFFFFFF 1) _ _ hrun
  exact absurd hsum (by decide)

end RiscvVm.Proofs
