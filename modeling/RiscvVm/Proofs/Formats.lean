import Mathlib.Data.Bool.Basic
import RiscvVm.Encoders
import RiscvVm.Proofs.Encoding

namespace RiscvVm.Proofs
open Rv64i

/-- A field of at most eight bits in an argument of type `uint8_t`. -/
def byteArg {n : Nat} (x : BitVec n) : BitVec 8 := x.setWidth 8

/-- The mask of its width takes nothing from a field. -/
theorem byte_arg_mask {n : Nat} (x : BitVec n) (hn : n ≤ 8) :
    (byteArg x &&& BitVec.ofNat 8 (2 ^ n - 1)).setWidth 32 = x.setWidth 32 := by
  apply BitVec.eq_of_getLsbD_eq
  intro i hi
  simp only [byteArg, BitVec.getLsbD_setWidth, BitVec.getLsbD_and, BitVec.getLsbD_ofNat,
    Nat.testBit_two_pow_sub_one]
  by_cases hlt : i < n
  · simp [hlt, hi, show i < 8 by omega]
  · simp [BitVec.getLsbD_of_ge x i (by omega)]

section
variable (funct7 : BitVec 7) (rs2 rs1 : BitVec 5) (funct3 : BitVec 3) (rd : BitVec 5)
  (opcode : BitVec 7)

theorem seven_bits : (byteArg funct7 &&& 0x7F).setWidth 32 = funct7.setWidth 32 :=
  byte_arg_mask funct7 (by omega)

theorem five_bits : (byteArg rd &&& 0x1F).setWidth 32 = rd.setWidth 32 :=
  byte_arg_mask rd (by omega)

theorem three_bits : (byteArg funct3 &&& 0x07).setWidth 32 = funct3.setWidth 32 :=
  byte_arg_mask funct3 (by omega)

theorem enc_r_eq : encR (byteArg funct7) (byteArg rs2) (byteArg rs1) (byteArg funct3)
    (byteArg rd) (byteArg opcode) = rFormat funct7 rs2 rs1 funct3 rd opcode := by
  simp only [encR, rFormat, seven_bits, five_bits, three_bits]
  apply BitVec.eq_of_getLsbD_eq
  intro i hi
  simp only [BitVec.getLsbD_or, BitVec.getLsbD_shiftLeft, BitVec.getLsbD_setWidth,
    BitVec.getLsbD_cast, BitVec.getLsbD_append]
  grind

theorem enc_i_eq (imm : BitVec 32) : encI imm (byteArg rs1) (byteArg funct3) (byteArg rd)
    (byteArg opcode) = iFormat (imm.extractLsb' 0 12) rs1 funct3 rd opcode := by
  have himm : imm &&& 0xFFF = (imm.extractLsb' 0 12).setWidth 32 := by
    simpa using Bits.shift_and_mask imm 0 12
  simp only [encI, iFormat, seven_bits, five_bits, three_bits, himm]
  apply BitVec.eq_of_getLsbD_eq
  intro i hi
  simp only [BitVec.getLsbD_or, BitVec.getLsbD_shiftLeft, BitVec.getLsbD_setWidth,
    BitVec.getLsbD_cast, BitVec.getLsbD_append]
  grind

theorem enc_s_eq (imm : BitVec 32) : encS imm (byteArg rs2) (byteArg rs1) (byteArg funct3)
    (byteArg opcode) = sFormat (imm.extractLsb' 0 12) rs2 rs1 funct3 opcode := by
  have himm : imm &&& 0xFFF = (imm.extractLsb' 0 12).setWidth 32 := by
    simpa using Bits.shift_and_mask imm 0 12
  have hlow := Bits.shift_and_mask ((imm.extractLsb' 0 12).setWidth 32) 0 5
  simp only [Nat.reducePow, Nat.reduceSub, BitVec.ushiftRight_zero] at hlow
  simp only [encS, sFormat, seven_bits, five_bits, three_bits, himm]
  rw [show (0x1F : BitVec 32) = BitVec.ofNat 32 31 from rfl, hlow]
  apply BitVec.eq_of_getLsbD_eq
  intro i hi
  simp only [BitVec.getLsbD_or, BitVec.getLsbD_shiftLeft, BitVec.getLsbD_ushiftRight,
    BitVec.getLsbD_setWidth, BitVec.getLsbD_cast, BitVec.getLsbD_append, BitVec.getLsbD_extractLsb']
  grind

/-- Fields of a masked immediate are fields of the immediate. -/
theorem masked_field (imm : BitVec 32) {lo len n : Nat} (h : lo + len ≤ n) (hn : n ≤ 32) :
    ((imm &&& BitVec.ofNat 32 (2 ^ n - 1)) >>> lo) &&& BitVec.ofNat 32 (2 ^ len - 1) =
      (imm.extractLsb' lo len).setWidth 32 := by
  rw [Bits.shift_and_mask]
  apply BitVec.eq_of_getLsbD_eq
  intro i hi
  simp only [BitVec.getLsbD_setWidth, BitVec.getLsbD_extractLsb', BitVec.getLsbD_and,
    BitVec.getLsbD_ofNat, Nat.testBit_two_pow_sub_one]
  by_cases hlen : i < len
  · simp [hi, hlen, show lo + i < 32 by omega, show lo + i < n by omega]
  · simp [hlen]

theorem enc_b_eq (imm : BitVec 32) : encB imm (byteArg rs2) (byteArg rs1) (byteArg funct3)
    (byteArg opcode) = bFormat (imm.extractLsb' 1 12) rs2 rs1 funct3 opcode := by
  have h12 : (imm &&& 0x1FFF) >>> 12 &&& 0x1 = (imm.extractLsb' 12 1).setWidth 32 :=
    @masked_field imm 12 1 13 (by omega) (by omega)
  have h5 : (imm &&& 0x1FFF) >>> 5 &&& 0x3F = (imm.extractLsb' 5 6).setWidth 32 :=
    @masked_field imm 5 6 13 (by omega) (by omega)
  have h1 : (imm &&& 0x1FFF) >>> 1 &&& 0x0F = (imm.extractLsb' 1 4).setWidth 32 :=
    @masked_field imm 1 4 13 (by omega) (by omega)
  have h11 : (imm &&& 0x1FFF) >>> 11 &&& 0x1 = (imm.extractLsb' 11 1).setWidth 32 :=
    @masked_field imm 11 1 13 (by omega) (by omega)
  simp only [encB, bFormat, seven_bits, five_bits, three_bits, h12, h5, h1, h11]
  apply BitVec.eq_of_getLsbD_eq
  intro i hi
  simp only [BitVec.getLsbD_or, BitVec.getLsbD_shiftLeft,
    BitVec.getLsbD_setWidth, BitVec.getLsbD_cast, BitVec.getLsbD_append, BitVec.getLsbD_extractLsb']
  grind

theorem enc_u_eq (imm20 : BitVec 32) : encU imm20 (byteArg rd) (byteArg opcode) =
    uFormat (imm20.extractLsb' 0 20) rd opcode := by
  have himm : imm20 &&& 0xFFFFF = (imm20.extractLsb' 0 20).setWidth 32 := by
    simpa using Bits.shift_and_mask imm20 0 20
  simp only [encU, uFormat, seven_bits, five_bits, himm]
  apply BitVec.eq_of_getLsbD_eq
  intro i hi
  simp only [BitVec.getLsbD_or, BitVec.getLsbD_shiftLeft, BitVec.getLsbD_setWidth,
    BitVec.getLsbD_cast, BitVec.getLsbD_append]
  grind

theorem enc_j_eq (imm : BitVec 32) : encJ imm (byteArg rd) (byteArg opcode) =
    jFormat (imm.extractLsb' 1 20) rd opcode := by
  have h20 : (imm &&& 0x1FFFFF) >>> 20 &&& 0x1 = (imm.extractLsb' 20 1).setWidth 32 :=
    @masked_field imm 20 1 21 (by omega) (by omega)
  have h1 : (imm &&& 0x1FFFFF) >>> 1 &&& 0x3FF = (imm.extractLsb' 1 10).setWidth 32 :=
    @masked_field imm 1 10 21 (by omega) (by omega)
  have h11 : (imm &&& 0x1FFFFF) >>> 11 &&& 0x1 = (imm.extractLsb' 11 1).setWidth 32 :=
    @masked_field imm 11 1 21 (by omega) (by omega)
  have h12 : (imm &&& 0x1FFFFF) >>> 12 &&& 0xFF = (imm.extractLsb' 12 8).setWidth 32 :=
    @masked_field imm 12 8 21 (by omega) (by omega)
  simp only [encJ, jFormat, seven_bits, five_bits, h20, h1, h11, h12]
  apply BitVec.eq_of_getLsbD_eq
  intro i hi
  simp only [BitVec.getLsbD_or, BitVec.getLsbD_shiftLeft, BitVec.getLsbD_setWidth,
    BitVec.getLsbD_cast, BitVec.getLsbD_append, BitVec.getLsbD_extractLsb']
  grind

theorem encode_amo_eq (funct5 : BitVec 5) (aq rl : BitVec 1) :
    encodeAmo (byteArg funct5) (byteArg aq) (byteArg rl) (byteArg rs2) (byteArg rs1)
      (byteArg funct3) (byteArg rd) =
      rFormat (funct5 ++ aq ++ rl) rs2 rs1 funct3 rd (Opcode.code .amo) := by
  have hop : (0x2F : BitVec 32) = (Opcode.code .amo).setWidth 32 := rfl
  simp only [encodeAmo, rFormat, hop]
  apply BitVec.eq_of_getLsbD_eq
  intro i hi
  simp only [byteArg, BitVec.getLsbD_or, BitVec.getLsbD_shiftLeft, BitVec.getLsbD_setWidth,
    BitVec.getLsbD_cast, BitVec.getLsbD_append]
  grind

theorem decode_a (funct5 : BitVec 5) (aq rl : BitVec 1) :
    decodeA (rFormat (funct5 ++ aq ++ rl) rs2 rs1 funct3 rd opcode) =
      { rd := rd
        funct3 := funct3
        rs1 := rs1
        rs2 := rs2
        rl := rl
        aq := aq
        funct5 := funct5
        raw := rFormat (funct5 ++ aq ++ rl) rs2 rs1 funct3 rd opcode } := by
  simp only [decodeA, AType.mk.injEq, and_true]
  simp (disch := omega) only [field, rFormat, BitVec.extractLsb'_cast,
    BitVec.extractLsb'_append_eq_of_add_le, BitVec.extractLsb'_append_eq_of_le, Nat.reduceSub,
    BitVec.extractLsb'_eq_self, and_self]

end
section
variable (word : BitVec 32)

theorem r_format_of : rFormat (field word 25 7) (rs2Of word) (rs1Of word) (funct3Of word)
    (rdOf word) (opcodeOf word) = word := by
  apply BitVec.eq_of_getLsbD_eq
  intro i hi
  simp only [rFormat, field, rs2Of, rs1Of, funct3Of, rdOf, opcodeOf, BitVec.getLsbD_cast,
    BitVec.getLsbD_append, BitVec.getLsbD_extractLsb']
  grind

theorem i_format_of : iFormat (field word 20 12) (rs1Of word) (funct3Of word) (rdOf word)
    (opcodeOf word) = word := by
  apply BitVec.eq_of_getLsbD_eq
  intro i hi
  simp only [iFormat, field, rs1Of, funct3Of, rdOf, opcodeOf, BitVec.getLsbD_cast,
    BitVec.getLsbD_append, BitVec.getLsbD_extractLsb']
  grind

theorem s_format_of : sFormat (field word 25 7 ++ field word 7 5) (rs2Of word) (rs1Of word)
    (funct3Of word) (opcodeOf word) = word := by
  apply BitVec.eq_of_getLsbD_eq
  intro i hi
  simp only [sFormat, field, rs2Of, rs1Of, funct3Of, opcodeOf, BitVec.getLsbD_cast,
    BitVec.getLsbD_append, BitVec.getLsbD_extractLsb']
  grind

theorem b_format_of : bFormat
    (field word 31 1 ++ field word 7 1 ++ field word 25 6 ++ field word 8 4) (rs2Of word)
    (rs1Of word) (funct3Of word) (opcodeOf word) = word := by
  apply BitVec.eq_of_getLsbD_eq
  intro i hi
  simp only [bFormat, field, rs2Of, rs1Of, funct3Of, opcodeOf, BitVec.getLsbD_cast,
    BitVec.getLsbD_append, BitVec.getLsbD_extractLsb']
  grind

theorem u_format_of : uFormat (field word 12 20) (rdOf word) (opcodeOf word) = word := by
  apply BitVec.eq_of_getLsbD_eq
  intro i hi
  simp only [uFormat, field, rdOf, opcodeOf, BitVec.getLsbD_cast, BitVec.getLsbD_append,
    BitVec.getLsbD_extractLsb']
  grind

theorem j_format_of : jFormat
    (field word 31 1 ++ field word 12 8 ++ field word 20 1 ++ field word 21 10) (rdOf word)
    (opcodeOf word) = word := by
  apply BitVec.eq_of_getLsbD_eq
  intro i hi
  simp only [jFormat, field, rdOf, opcodeOf, BitVec.getLsbD_cast, BitVec.getLsbD_append,
    BitVec.getLsbD_extractLsb']
  grind

theorem a_format_of : rFormat (funct5Of word ++ field word 26 1 ++ field word 25 1) (rs2Of word)
    (rs1Of word) (funct3Of word) (rdOf word) (opcodeOf word) = word := by
  apply BitVec.eq_of_getLsbD_eq
  intro i hi
  simp only [rFormat, field, funct5Of, rs2Of, rs1Of, funct3Of, rdOf, opcodeOf,
    BitVec.getLsbD_cast, BitVec.getLsbD_append, BitVec.getLsbD_extractLsb']
  grind

end

/-- An immediate that fits its field is the sign extension of the field. -/
theorem fitting_imm (imm : BitVec 32) {n : Nat} (hn : n ≤ 32) (hlow : -2 ^ n ≤ imm.toInt * 2)
    (hhigh : imm.toInt * 2 < 2 ^ n) :
    (imm.extractLsb' 0 n).signExtend 64 = imm.signExtend 64 := by
  have hint : (imm.extractLsb' 0 n).toInt = imm.toInt := by
    rw [← BitVec.setWidth_eq_extractLsb' hn, BitVec.toInt_setWidth,
      ← Int.bmod_bmod_of_dvd (Nat.pow_dvd_pow 2 hn), ← BitVec.toInt_eq_toNat_bmod]
    exact Int.bmod_eq_of_le_mul_two (by simpa using hlow) (by simpa using hhigh)
  unfold BitVec.signExtend
  rw [hint]

/-- An even immediate loses nothing with its lowest bit. -/
theorem even_imm (imm : BitVec 32) (n : Nat) (heven : imm.toInt % 2 = 0) :
    imm.extractLsb' 1 n ++ 0#1 = imm.extractLsb' 0 (n + 1) := by
  have hbit : imm.getLsbD 0 = false := by
    rw [BitVec.toInt_eq_toNat_cond] at heven
    rw [BitVec.getLsbD, Nat.testBit_zero]
    exact decide_eq_false (by split at heven <;> omega)
  apply BitVec.eq_of_getLsbD_eq
  intro i hi
  simp only [BitVec.getLsbD_append, BitVec.getLsbD_extractLsb', BitVec.getLsbD_zero]
  cases i with
  | zero => simpa using hbit
  | succ i => simp [show i < n by omega, Nat.add_comm]

/-- The fields of an immediate are not changed by its sign extension. -/
theorem field_of_imm {n lo len : Nat} (imm : BitVec n) (hn : n ≤ 32) (h : lo + len ≤ n) :
    ((imm.signExtend 64).setWidth 32).extractLsb' lo len = imm.extractLsb' lo len := by
  apply BitVec.eq_of_getLsbD_eq
  intro i hi
  simp only [BitVec.getLsbD_extractLsb', BitVec.getLsbD_setWidth, BitVec.getLsbD_signExtend]
  simp [hi, show lo + i < n by omega, show lo + i < 32 by omega, show lo + i < 64 by omega]

theorem field_of_offset {n : Nat} (imm : BitVec n) (hn : n + 1 ≤ 32) :
    (((imm ++ 0#1).signExtend 64).setWidth 32).extractLsb' 1 n = imm := by
  rw [field_of_imm _ hn (by omega), BitVec.extractLsb'_append_eq_of_le (by omega),
    BitVec.extractLsb'_eq_self]

theorem field_of_upper (imm : BitVec 20) :
    ((((imm ++ 0#12).signExtend 64) >>> 12).setWidth 32).extractLsb' 0 20 = imm := by
  apply BitVec.eq_of_getLsbD_eq
  intro i hi
  simp only [BitVec.getLsbD_extractLsb', BitVec.getLsbD_setWidth, BitVec.getLsbD_ushiftRight,
    BitVec.getLsbD_signExtend, BitVec.getLsbD_append]
  simp [hi, show i < 32 by omega, show 12 + i < 32 by omega, show 12 + i < 64 by omega]

/-- `enc_r` and `decodeR` undo each other; below, likewise for the others. The
immediates are what the format has room for. -/
structure RUndone : Prop where
  decode : ∀ (funct7 : BitVec 7) (rs2 rs1 : BitVec 5) (funct3 : BitVec 3) (rd : BitVec 5)
    (opcode : BitVec 7) (word : BitVec 32),
    word = encR (byteArg funct7) (byteArg rs2) (byteArg rs1) (byteArg funct3) (byteArg rd)
      (byteArg opcode) →
    decodeR word = { rd, funct3, rs1, rs2, funct7, opcode, raw := word }
  encode : ∀ word,
    encR (byteArg (decodeR word).funct7) (byteArg (decodeR word).rs2) (byteArg (decodeR word).rs1)
      (byteArg (decodeR word).funct3) (byteArg (decodeR word).rd)
      (byteArg (decodeR word).opcode) = word

structure IUndone : Prop where
  decode : ∀ (imm : BitVec 32) (rs1 : BitVec 5) (funct3 : BitVec 3) (rd : BitVec 5)
    (opcode : BitVec 7) (word : BitVec 32), -2048 ≤ imm.toInt → imm.toInt ≤ 2047 →
    word = encI imm (byteArg rs1) (byteArg funct3) (byteArg rd) (byteArg opcode) →
    decodeI word = { rd, funct3, rs1, opcode, imm := imm.signExtend 64, raw := word }
  encode : ∀ word,
    encI ((decodeI word).imm.setWidth 32) (byteArg (decodeI word).rs1)
      (byteArg (decodeI word).funct3) (byteArg (decodeI word).rd)
      (byteArg (decodeI word).opcode) = word

structure SUndone : Prop where
  decode : ∀ (imm : BitVec 32) (rs2 rs1 : BitVec 5) (funct3 : BitVec 3) (opcode : BitVec 7)
    (word : BitVec 32), -2048 ≤ imm.toInt → imm.toInt ≤ 2047 →
    word = encS imm (byteArg rs2) (byteArg rs1) (byteArg funct3) (byteArg opcode) →
    decodeS word = { funct3, rs1, rs2, opcode, imm := imm.signExtend 64, raw := word }
  encode : ∀ word,
    encS ((decodeS word).imm.setWidth 32) (byteArg (decodeS word).rs2)
      (byteArg (decodeS word).rs1) (byteArg (decodeS word).funct3)
      (byteArg (decodeS word).opcode) = word

structure BUndone : Prop where
  decode : ∀ (imm : BitVec 32) (rs2 rs1 : BitVec 5) (funct3 : BitVec 3) (opcode : BitVec 7)
    (word : BitVec 32), -4096 ≤ imm.toInt → imm.toInt ≤ 4094 → imm.toInt % 2 = 0 →
    word = encB imm (byteArg rs2) (byteArg rs1) (byteArg funct3) (byteArg opcode) →
    decodeB word = { funct3, rs1, rs2, opcode, imm := imm.signExtend 64, raw := word }
  encode : ∀ word,
    encB ((decodeB word).imm.setWidth 32) (byteArg (decodeB word).rs2)
      (byteArg (decodeB word).rs1) (byteArg (decodeB word).funct3)
      (byteArg (decodeB word).opcode) = word

structure UUndone : Prop where
  decode : ∀ (imm20 : BitVec 20) (rd : BitVec 5) (opcode : BitVec 7) (word : BitVec 32),
    word = encU (imm20.setWidth 32) (byteArg rd) (byteArg opcode) →
    decodeU word =
      { rd, opcode, imm := (imm20.setWidth 32 <<< 12).signExtend 64, raw := word }
  encode : ∀ word,
    encU (((decodeU word).imm >>> 12).setWidth 32) (byteArg (decodeU word).rd)
      (byteArg (decodeU word).opcode) = word

structure JUndone : Prop where
  decode : ∀ (imm : BitVec 32) (rd : BitVec 5) (opcode : BitVec 7) (word : BitVec 32),
    -1048576 ≤ imm.toInt → imm.toInt ≤ 1048574 → imm.toInt % 2 = 0 →
    word = encJ imm (byteArg rd) (byteArg opcode) →
    decodeJ word = { rd, opcode, imm := imm.signExtend 64, raw := word }
  encode : ∀ word,
    encJ ((decodeJ word).imm.setWidth 32) (byteArg (decodeJ word).rd)
      (byteArg (decodeJ word).opcode) = word

/-- The words of this format are those of the opcode AMO. -/
structure AUndone : Prop where
  decode : ∀ (funct5 : BitVec 5) (aq rl : BitVec 1) (rs2 rs1 : BitVec 5) (funct3 : BitVec 3)
    (rd : BitVec 5) (word : BitVec 32),
    word = encodeAmo (byteArg funct5) (byteArg aq) (byteArg rl) (byteArg rs2) (byteArg rs1)
      (byteArg funct3) (byteArg rd) →
    decodeA word = { rd, funct3, rs1, rs2, rl, aq, funct5, raw := word } ∧
      opcodeOf word = Opcode.code .amo
  encode : ∀ word, opcodeOf word = Opcode.code .amo →
    encodeAmo (byteArg (decodeA word).funct5) (byteArg (decodeA word).aq)
      (byteArg (decodeA word).rl) (byteArg (decodeA word).rs2) (byteArg (decodeA word).rs1)
      (byteArg (decodeA word).funct3) (byteArg (decodeA word).rd) = word

theorem r_undone : RUndone := by
  constructor
  · rintro funct7 rs2 rs1 funct3 rd opcode _ rfl
    rw [enc_r_eq, decode_r]
  · intro word
    rw [enc_r_eq]
    exact r_format_of word

theorem i_undone : IUndone := by
  constructor
  · rintro imm rs1 funct3 rd opcode _ hlow hhigh rfl
    rw [enc_i_eq, decode_i, fitting_imm imm (by omega) (by omega) (by omega)]
  · intro word
    rw [enc_i_eq, decode_i_imm, field_of_imm _ (by omega) (by omega),
      BitVec.extractLsb'_eq_self]
    exact i_format_of word

theorem s_undone : SUndone := by
  constructor
  · rintro imm rs2 rs1 funct3 opcode _ hlow hhigh rfl
    rw [enc_s_eq, decode_s, fitting_imm imm (by omega) (by omega) (by omega)]
  · intro word
    rw [← s_format_of word, decode_s, enc_s_eq, field_of_imm _ (by omega) (by omega),
      BitVec.extractLsb'_eq_self]

theorem b_undone : BUndone := by
  constructor
  · rintro imm rs2 rs1 funct3 opcode _ hlow hhigh heven rfl
    rw [enc_b_eq, decode_b, even_imm imm 12 heven,
      fitting_imm imm (by omega) (by omega) (by omega)]
  · intro word
    rw [← b_format_of word, decode_b, enc_b_eq, field_of_offset _ (by omega)]

theorem u_undone : UUndone := by
  constructor
  · rintro imm20 rd opcode _ rfl
    have himm : imm20 ++ 0#12 = imm20.setWidth 32 <<< 12 := by
      apply BitVec.eq_of_getLsbD_eq
      intro i hi
      simp only [BitVec.getLsbD_append, BitVec.getLsbD_shiftLeft, BitVec.getLsbD_setWidth,
        BitVec.getLsbD_zero]
      grind
    rw [enc_u_eq, ← BitVec.setWidth_eq_extractLsb' (by omega),
      BitVec.setWidth_setWidth_of_le _ (by omega), BitVec.setWidth_eq, decode_u, himm]
  · intro word
    rw [← u_format_of word, decode_u, enc_u_eq, field_of_upper]

theorem j_undone : JUndone := by
  constructor
  · rintro imm rd opcode _ hlow hhigh heven rfl
    rw [enc_j_eq, decode_j, even_imm imm 20 heven,
      fitting_imm imm (by omega) (by omega) (by omega)]
  · intro word
    rw [← j_format_of word, decode_j, enc_j_eq, field_of_offset _ (by omega)]

theorem a_undone : AUndone := by
  constructor
  · rintro funct5 aq rl rs2 rs1 funct3 rd _ rfl
    rw [encode_amo_eq, decode_a, opcode_r]
    exact ⟨rfl, rfl⟩
  · intro word hop
    rw [encode_amo_eq, ← hop]
    exact a_format_of word

/-- The decoders of all seven formats undo the encoders, and are undone. -/
theorem decoders_undone :
    RUndone ∧ IUndone ∧ SUndone ∧ BUndone ∧ UUndone ∧ JUndone ∧ AUndone :=
  ⟨r_undone, i_undone, s_undone, b_undone, u_undone, j_undone, a_undone⟩

end RiscvVm.Proofs
