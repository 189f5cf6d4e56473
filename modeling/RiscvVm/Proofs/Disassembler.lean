import RiscvVm.Proofs.Formats
import RiscvVm.Proofs.Called
import RiscvVm.Proofs.Window

namespace RiscvVm.Proofs
open Encodings (funct6 funct7)

/-- The executor never does anything with the word but refuse it. -/
def Rejected (word : BitVec 32) : Prop := ∀ vm, TrapsIllegal vm word

/-- The line for a word at `addr` is that of the operation which is executed, and
a `.word` where none ever is. -/
structure Agrees (word : BitVec 32) (addr : BitVec 64) : Prop where
  printable : ∀ operands, lineOf word addr ≠ .instruction none operands
  executed : ∀ vm, ¬ TrapsIllegal vm word →
    ∃ h, handlerOf word addr = some h ∧ dispatchInstruction vm word = h.run vm ∧
      lineOf word addr = h.line
  rejected : Rejected word → lineOf word addr = .word word

section
variable {word : BitVec 32} {addr : BitVec 64}

theorem agrees_of_handler {h : Handler} (hh : handlerOf word addr = some h)
    (hline : lineOf word addr = h.line) (hexec : ¬ Rejected word) : Agrees word addr := by
  constructor
  · intro operands hnull
    rw [hline] at hnull
    cases hnull
  · intro vm _
    exact ⟨h, hh, handler_runs hh vm, hline⟩
  · intro hrej
    exact absurd hrej hexec

theorem agrees_of_word (hrej : Rejected word) (hline : lineOf word addr = .word word) :
    Agrees word addr := by
  constructor
  · intro operands hnull
    rw [hline] at hnull
    cases hnull
  · intro vm hexec
    exact absurd (hrej vm) hexec
  · intro _
    exact hline

/-- A line that agrees and is no `.word` names the handler. -/
theorem Agrees.named (ha : Agrees word addr) {mnemonic : Option String} {operands : List Operand}
    (hline : lineOf word addr = .instruction mnemonic operands) :
    ∃ h, handlerOf word addr = some h ∧ mnemonic = some h.mnemonic ∧ operands = h.operands := by
  have hexec : ¬ Rejected word := by
    intro hrej
    rw [ha.rejected hrej] at hline
    cases hline
  obtain ⟨vm, hvm⟩ := Classical.not_forall.mp hexec
  obtain ⟨h, hh, _, hl⟩ := ha.executed vm hvm
  rw [hline] at hl
  injection hl with hm ho
  exact ⟨h, hh, hm, ho⟩

/-- A line that agrees and is a `.word` is of a word without operation. -/
theorem Agrees.unnamed (ha : Agrees word addr) (hline : lineOf word addr = .word word) :
    Rejected word := by
  intro vm
  apply Classical.byContradiction
  intro hvm
  obtain ⟨h, _, _, hl⟩ := ha.executed vm hvm
  rw [hline] at hl
  cases hl

/-- A word that leaves the machine untrapped is not refused. -/
theorem quiet_not_rejected {vm : Vm} (h : (dispatchInstruction vm word).cpu.trapTaken = false) :
    ¬ Rejected word :=
  fun hrej => not_illegal_of_quiet word h (hrej vm)

end

section
variable {word : BitVec 32} {addr : BitVec 64} {h : Handler}

/-- The handlers that compute with registers alone raise nothing. -/
theorem register_op_quiet (f : BitVec 64 → BitVec 64 → BitVec 64) (cpu : Cpu) (i : RType) :
    (registerOp f cpu i).trapTaken = cpu.trapTaken := write_reg_trap_taken _ _ _

theorem immediate_op_quiet (f : BitVec 64 → BitVec 64 → BitVec 64) (cpu : Cpu) (i : IType) :
    (immediateOp f cpu i).trapTaken = cpu.trapTaken := write_reg_trap_taken _ _ _

theorem branch_if_quiet (taken : BitVec 64 → BitVec 64 → Bool) (cpu : Cpu) (i : BType) :
    (branchIf taken cpu i).trapTaken = cpu.trapTaken := by
  unfold branchIf
  split <;> rfl

theorem load_quiet (width : Width) (extend : BitVec 64 → BitVec 64) (i : IType) :
    (loadOp width extend unloaded i).cpu.trapTaken = false := by
  unfold loadOp cpuLoad
  dsimp only
  rw [translate_unloaded]
  dsimp only
  rw [write_reg_trap_taken]
  rfl

theorem store_quiet (width : Width) (i : SType) :
    (storeOp width unloaded i).cpu.trapTaken = false := by
  unfold storeOp cpuStore
  dsimp only
  rw [translate_unloaded]
  dsimp only
  rw [invalidate_trap_taken]
  rfl

/-- A handler that is not one of SYSTEM or MISC-MEM succeeds somewhere. -/
theorem handler_not_rejected (hh : handlerOf word addr = some h)
    (hquiet : (h.run unloaded).cpu.trapTaken = false) : ¬ Rejected word := by
  rw [← handler_runs hh] at hquiet
  exact quiet_not_rejected hquiet

theorem branch_handler_quiet (hh : branchHandler word addr = some h) :
    (h.run unloaded).cpu.trapTaken = false := by
  unfold branchHandler at hh
  split at hh <;> cases hh
  all_goals exact (branch_if_quiet _ _ _).trans rfl

theorem load_handler_quiet (hh : loadHandler word = some h) :
    (h.run unloaded).cpu.trapTaken = false := by
  unfold loadHandler at hh
  split at hh <;> cases hh
  all_goals exact load_quiet _ _ _

theorem store_handler_quiet (hh : storeHandler word = some h) :
    (h.run unloaded).cpu.trapTaken = false := by
  unfold storeHandler at hh
  split at hh <;> cases hh
  all_goals exact store_quiet _ _

theorem op_imm_handler_quiet (hh : opImmHandler word = some h) :
    (h.run unloaded).cpu.trapTaken = false := by
  unfold opImmHandler at hh
  repeat' split at hh
  all_goals
    cases hh
    try exact (immediate_op_quiet _ _ _).trans rfl

theorem op_imm32_handler_quiet (hh : opImm32Handler word = some h) :
    (h.run unloaded).cpu.trapTaken = false := by
  unfold opImm32Handler at hh
  repeat' split at hh
  all_goals
    cases hh
    try exact (immediate_op_quiet _ _ _).trans rfl

theorem op_handler_quiet (hh : opHandler word = some h) :
    (h.run unloaded).cpu.trapTaken = false := by
  unfold opHandler at hh
  repeat' split at hh
  all_goals
    cases hh
    try exact (register_op_quiet _ _ _).trans rfl

theorem m_op_handler_quiet (hh : mOpHandler word = some h) :
    (h.run unloaded).cpu.trapTaken = false := by
  unfold mOpHandler at hh
  split at hh <;> cases hh
  all_goals exact (register_op_quiet _ _ _).trans rfl

theorem op32_handler_quiet (hh : op32Handler word = some h) :
    (h.run unloaded).cpu.trapTaken = false := by
  unfold op32Handler at hh
  repeat' split at hh
  all_goals
    cases hh
    try exact (register_op_quiet _ _ _).trans rfl

theorem m_op32_handler_quiet (hh : mOp32Handler word = some h) :
    (h.run unloaded).cpu.trapTaken = false := by
  unfold mOp32Handler at hh
  split at hh <;> cases hh
  all_goals exact (register_op_quiet _ _ _).trans rfl

/-- Where the mnemonic comes from a table of the handlers' names, only a NULL in
it makes a difference. -/
theorem agrees_by_table {table : Option String} {operands : List Operand}
    (hline : lineOf word addr = .instruction table operands)
    (htable : (handlerOf word addr).map Handler.line =
      table.map fun mnemonic => .instruction (some mnemonic) operands)
    (hexec : ∀ h, handlerOf word addr = some h → ¬ Rejected word) :
    Agrees word addr ↔ table ≠ none := by
  cases htab : table with
  | none =>
    rw [htab] at hline
    exact ⟨fun ha => absurd hline (ha.printable operands), fun hne => absurd rfl hne⟩
  | some mnemonic =>
    rw [htab] at hline htable
    refine ⟨fun _ => Option.some_ne_none mnemonic, fun _ => ?_⟩
    cases hh : handlerOf word addr with
    | none =>
      rw [hh] at htable
      cases htable
    | some h =>
      rw [hh] at htable
      exact agrees_of_handler hh (hline.trans (Option.some.inj htable).symm) (hexec h hh)

theorem load_agrees_iff (hop : Opcode.ofRaw (opcodeOf word) = some .load) :
    Agrees word addr ↔ funct3Of word ≠ 7 := by
  have hh : handlerOf word addr = loadHandler word := by
    unfold handlerOf
    rw [hop]
  have hnull : ∀ f : BitVec 3, loadMnemonics f ≠ none ↔ f ≠ 7 := by decide
  rw [← hnull]
  apply agrees_by_table
  · unfold lineOf
    rw [hop]
    rfl
  · rw [hh]
    rcases funct3_values (funct3Of word) with hf | hf | hf | hf | hf | hf | hf | hf
    all_goals
      simp only [loadHandler, loadMnemonics, hf]
      rfl
  · intro h hload
    exact handler_not_rejected hload (load_handler_quiet (hh.symm.trans hload))

theorem store_agrees_iff (hop : Opcode.ofRaw (opcodeOf word) = some .store) :
    Agrees word addr ↔ funct3Of word ≤ 3 := by
  have hh : handlerOf word addr = storeHandler word := by
    unfold handlerOf
    rw [hop]
  have hnull : ∀ f : BitVec 3, storeMnemonics f ≠ none ↔ f ≤ 3 := by decide
  rw [← hnull]
  apply agrees_by_table
  · unfold lineOf
    rw [hop]
    rfl
  · rw [hh]
    rcases funct3_values (funct3Of word) with hf | hf | hf | hf | hf | hf | hf | hf
    all_goals
      simp only [storeHandler, storeMnemonics, hf]
      rfl
  · intro h hstore
    exact handler_not_rejected hstore (store_handler_quiet (hh.symm.trans hstore))

theorem branch_agrees_iff (hop : Opcode.ofRaw (opcodeOf word) = some .branch) :
    Agrees word addr ↔ funct3Of word ≠ 2 ∧ funct3Of word ≠ 3 := by
  have hh : handlerOf word addr = branchHandler word addr := by
    unfold handlerOf
    rw [hop]
  have hnull : ∀ f : BitVec 3, branchMnemonics f ≠ none ↔ f ≠ 2 ∧ f ≠ 3 := by decide
  rw [← hnull]
  apply agrees_by_table
  · unfold lineOf
    rw [hop]
    rfl
  · rw [hh]
    rcases funct3_values (funct3Of word) with hf | hf | hf | hf | hf | hf | hf | hf
    all_goals
      simp only [branchHandler, branchMnemonics, hf]
      rfl
  · intro h hbranch
    exact handler_not_rejected hbranch (branch_handler_quiet (hh.symm.trans hbranch))

/-- The operands of OP and OP-32. -/
def registerOperands (word : BitVec 32) : List Operand :=
  [.register (rdOf word), .register (rs1Of word), .register (rs2Of word)]

theorem op_line (hop : Opcode.ofRaw (opcodeOf word) = some .op) :
    lineOf word addr = .instruction
      (if funct7 word = 0 then opMnemonics (funct3Of word) else opAltMnemonics (funct3Of word))
      (registerOperands word) := by
  unfold lineOf
  rw [hop]
  rfl

theorem op_handler (hop : Opcode.ofRaw (opcodeOf word) = some .op) :
    handlerOf word addr = if funct7 word = 1 then mOpHandler word else opHandler word := by
  unfold handlerOf
  rw [hop]
  rfl

/-- Of the names in a table of alternatives only those for funct3 0 and 5 are
right, and these only where bit 5 alone of funct7 is set. -/
theorem alt_named {table : BitVec 3 → Option String} {ofM ofOp : Option Handler}
    (hline : lineOf word addr = .instruction (table (funct3Of word)) (registerOperands word))
    (hh : handlerOf word addr = if funct7 word = 1 then ofM else ofOp)
    (hnull : ∀ f, table f ≠ none → f = 0 ∨ f = 5)
    (hm : funct3Of word = 0 ∨ funct3Of word = 5 → ∀ h, ofM = some h →
      table (funct3Of word) ≠ some h.mnemonic)
    (hno : funct3Of word = 0 ∨ funct3Of word = 5 → funct7 word ≠ 0b0100000 → ofOp = none)
    (ha : Agrees word addr) :
    funct7 word = 0b0100000 ∧ (funct3Of word = 0 ∨ funct3Of word = 5) := by
  obtain ⟨h, hsome, hname, _⟩ := ha.named hline
  have hf : funct3Of word = 0 ∨ funct3Of word = 5 := by
    apply hnull
    rw [hname]
    exact Option.some_ne_none _
  refine ⟨?_, hf⟩
  apply Decidable.byContradiction
  intro h32
  rw [hh] at hsome
  by_cases h1 : funct7 word = 1
  · rw [if_pos h1] at hsome
    exact hm hf h hsome hname
  · rw [if_neg h1, hno hf h32] at hsome
    cases hsome

theorem op_alt_named (hop : Opcode.ofRaw (opcodeOf word) = some .op) (h0 : funct7 word ≠ 0)
    (ha : Agrees word addr) :
    funct7 word = 0b0100000 ∧ (funct3Of word = 0 ∨ funct3Of word = 5) := by
  refine alt_named ((op_line hop).trans (by rw [if_neg h0])) (op_handler hop) (by decide) ?_ ?_ ha
  · -- MUL and DIVU
    rintro (hf | hf) h hh
    all_goals
      simp only [mOpHandler, hf] at hh
      cases hh
      rw [hf]
      simp [opAltMnemonics, registerForm]
  · rintro (hf | hf) h32
    all_goals
      simp only [opHandler, hf]
      exact (if_neg h0).trans (if_neg h32)

theorem op_agrees_iff (hop : Opcode.ofRaw (opcodeOf word) = some .op) :
    Agrees word addr ↔
      funct7 word = 0 ∨ (funct7 word = 0b0100000 ∧ (funct3Of word = 0 ∨ funct3Of word = 5)) := by
  have hexec : ∀ h, handlerOf word addr = some h → ¬ Rejected word := by
    intro h hh
    have hh' := (op_handler hop).symm.trans hh
    refine handler_not_rejected hh ?_
    split at hh'
    · exact m_op_handler_quiet hh'
    · exact op_handler_quiet hh'
  constructor
  · intro ha
    by_cases h0 : funct7 word = 0
    · exact Or.inl h0
    · exact Or.inr (op_alt_named hop h0 ha)
  · rintro (h0 | ⟨h32, hf⟩)
    · have h1 : funct7 word ≠ 1 := by simp [h0]
      have h7 : (decodeR word).funct7 = 0 := h0
      have hsome : ∀ f : BitVec 3, opMnemonics f ≠ none := by decide
      have hline := @op_line word addr hop
      rw [if_pos h0] at hline
      refine (agrees_by_table hline ?_ hexec).mpr (hsome _)
      rw [op_handler hop, if_neg h1]
      rcases funct3_values (funct3Of word) with hf | hf | hf | hf | hf | hf | hf | hf
      all_goals
        simp only [opHandler, opMnemonics, hf, h7]
        rfl
    · have h0 : funct7 word ≠ 0 := by simp [h32]
      have h1 : funct7 word ≠ 1 := by simp [h32]
      have h7 : (decodeR word).funct7 = 0b0100000 := h32
      have hline := @op_line word addr hop
      rw [if_neg h0] at hline
      rcases hf with hf | hf
      all_goals
        rw [hf] at hline
        refine (agrees_by_table hline ?_ hexec).mpr (Option.some_ne_none _)
        rw [op_handler hop, if_neg h1]
        simp only [opHandler, hf, h7]
        rfl

theorem op32_line (hop : Opcode.ofRaw (opcodeOf word) = some .op32) :
    lineOf word addr = .instruction
      (if funct7 word = 0 then op32Mnemonics (funct3Of word)
        else op32AltMnemonics (funct3Of word))
      (registerOperands word) := by
  unfold lineOf
  rw [hop]
  rfl

theorem op32_handler (hop : Opcode.ofRaw (opcodeOf word) = some .op32) :
    handlerOf word addr = if funct7 word = 1 then mOp32Handler word else op32Handler word := by
  unfold handlerOf
  rw [hop]
  rfl

theorem op32_alt_named (hop : Opcode.ofRaw (opcodeOf word) = some .op32) (h0 : funct7 word ≠ 0)
    (ha : Agrees word addr) :
    funct7 word = 0b0100000 ∧ (funct3Of word = 0 ∨ funct3Of word = 5) := by
  refine alt_named ((op32_line hop).trans (by rw [if_neg h0])) (op32_handler hop) (by decide)
    ?_ ?_ ha
  · -- MULW and DIVUW
    rintro (hf | hf) h hh
    all_goals
      simp only [mOp32Handler, hf] at hh
      cases hh
      rw [hf]
      simp [op32AltMnemonics, registerForm]
  · rintro (hf | hf) h32
    all_goals
      simp only [op32Handler, hf]
      exact (if_neg h0).trans (if_neg h32)

theorem op32_agrees_iff (hop : Opcode.ofRaw (opcodeOf word) = some .op32) :
    Agrees word addr ↔
      (funct7 word = 0 ∧ (funct3Of word = 0 ∨ funct3Of word = 1 ∨ funct3Of word = 5)) ∨
        (funct7 word = 0b0100000 ∧ (funct3Of word = 0 ∨ funct3Of word = 5)) := by
  have hexec : ∀ h, handlerOf word addr = some h → ¬ Rejected word := by
    intro h hh
    have hh' := (op32_handler hop).symm.trans hh
    refine handler_not_rejected hh ?_
    split at hh'
    · exact m_op32_handler_quiet hh'
    · exact op32_handler_quiet hh'
  by_cases h0 : funct7 word = 0
  · have h1 : funct7 word ≠ 1 := by simp [h0]
    have h32 : funct7 word ≠ 0b0100000 := by simp [h0]
    have h7 : (decodeR word).funct7 = 0 := h0
    have hsome : ∀ f : BitVec 3, op32Mnemonics f ≠ none ↔ f = 0 ∨ f = 1 ∨ f = 5 := by decide
    have hline := @op32_line word addr hop
    rw [if_pos h0] at hline
    have htable := agrees_by_table hline (by
      rw [op32_handler hop, if_neg h1]
      rcases funct3_values (funct3Of word) with hf | hf | hf | hf | hf | hf | hf | hf
      all_goals
        simp only [op32Handler, op32Mnemonics, hf, h7]
        rfl) hexec
    rw [htable, hsome]
    exact ⟨fun hf => Or.inl ⟨h0, hf⟩, fun h => h.elim (fun h => h.2) fun h => absurd h.1 h32⟩
  · constructor
    · intro ha
      exact Or.inr (op32_alt_named hop h0 ha)
    · rintro (⟨hz, _⟩ | ⟨h32, hf⟩)
      · exact absurd hz h0
      have h1 : funct7 word ≠ 1 := by simp [h32]
      have h7 : (decodeR word).funct7 = 0b0100000 := h32
      have hline := @op32_line word addr hop
      rw [if_neg h0] at hline
      rcases hf with hf | hf
      all_goals
        rw [hf] at hline
        refine (agrees_by_table hline ?_ hexec).mpr (Option.some_ne_none _)
        rw [op32_handler hop, if_neg h1]
        simp only [op32Handler, hf, h7]
        rfl

/-- The printed operand is the part of the immediate that the word has. -/
theorem upper_operand (word : BitVec 32) :
    (word >>> 12).toNat = ((decodeU word).imm.extractLsb' 12 20).toNat := by
  have himm : (decodeU word).imm = (field word 12 20 ++ 0#12).signExtend 64 := by
    rw [← u_format_of word, decode_u, u_format_of]
  have hfield : (decodeU word).imm.extractLsb' 12 20 = field word 12 20 := by
    rw [himm]
    apply BitVec.eq_of_getLsbD_eq
    intro i hi
    simp only [BitVec.getLsbD_extractLsb', BitVec.getLsbD_signExtend, BitVec.getLsbD_append]
    simp [hi, show 12 + i < 64 by omega, show 12 + i < 32 by omega]
  have hshift : word >>> 12 = (field word 12 20).setWidth 32 := by
    apply BitVec.eq_of_getLsbD_eq
    intro i hi
    simp only [field, BitVec.getLsbD_ushiftRight, BitVec.getLsbD_setWidth,
      BitVec.getLsbD_extractLsb', hi]
    by_cases hlt : i < 20
    · simp [hlt]
    · simp [BitVec.getLsbD_of_ge word (12 + i) (by omega)]
  rw [hfield, hshift, BitVec.toNat_setWidth, Nat.mod_eq_of_lt]
  have := (field word 12 20).isLt
  omega

theorem jump_agrees (hop : Opcode.ofRaw (opcodeOf word) = some .lui ∨
    Opcode.ofRaw (opcodeOf word) = some .auipc ∨ Opcode.ofRaw (opcodeOf word) = some .jal ∨
    Opcode.ofRaw (opcodeOf word) = some .jalr) : Agrees word addr := by
  have hupper := upper_operand word
  obtain ⟨h, hh, hline, hquiet⟩ : ∃ h, handlerOf word addr = some h ∧
      lineOf word addr = h.line ∧ (h.run unloaded).cpu.trapTaken = false := by
    unfold handlerOf lineOf
    rcases hop with hop | hop | hop | hop <;> rw [hop]
    · exact ⟨_, rfl, by simp only [hupper]; rfl, write_reg_trap_taken _ _ _⟩
    · exact ⟨_, rfl, by simp only [hupper]; rfl, write_reg_trap_taken _ _ _⟩
    · exact ⟨_, rfl, rfl, write_reg_trap_taken _ _ _⟩
    · exact ⟨_, rfl, rfl, write_reg_trap_taken _ _ _⟩
  exact agrees_of_handler hh hline (handler_not_rejected hh hquiet)

/-- The shift amounts that are printed are those that the handlers use. -/
theorem low_imm (word : BitVec 32) {n : Nat} (hn : n ≤ 12) :
    ((decodeI word).imm &&& BitVec.ofNat 64 (2 ^ n - 1)).toNat = (field word 20 n).toNat := by
  have hmask := Bits.shift_and_mask (decodeI word).imm 0 n
  have hfield : (decodeI word).imm.extractLsb' 0 n = field word 20 n := by
    rw [decode_i_imm]
    apply BitVec.eq_of_getLsbD_eq
    intro i hi
    simp only [field, BitVec.getLsbD_extractLsb', BitVec.getLsbD_signExtend]
    simp [hi, show i < 12 by omega, show i < 64 by omega]
  rw [BitVec.ushiftRight_zero, hfield] at hmask
  rw [hmask, BitVec.toNat_setWidth, Nat.mod_eq_of_lt]
  have hlt := (field word 20 n).isLt
  have hpow := Nat.pow_le_pow_right (show 0 < 2 by omega) (show n ≤ 64 by omega)
  omega

theorem shamt6_operand (word : BitVec 32) :
    shamt6 (decodeI word).imm = (field word 20 6).toNat := @low_imm word 6 (by omega)

theorem shamt5_operand (word : BitVec 32) :
    shamt5 (decodeI word).imm = (field word 20 5).toNat := @low_imm word 5 (by omega)

theorem op_imm_handler (hop : Opcode.ofRaw (opcodeOf word) = some .opImm) :
    handlerOf word addr = opImmHandler word := by
  unfold handlerOf
  rw [hop]

theorem op_imm_agrees (hop : Opcode.ofRaw (opcodeOf word) = some .opImm) : Agrees word addr := by
  have hamount := shamt6_operand word
  obtain ⟨hsra, hsrl⟩ := upper_imm word
  by_cases hrej : funct3Of word = 5 ∧ funct6 word ≠ 0 ∧ funct6 word ≠ 0b010000
  · obtain ⟨hf, h0, h16⟩ := hrej
    refine agrees_of_word (fun vm => op_imm_refused hop hf h0 h16) ?_
    unfold lineOf
    rw [hop]
    simp only [decode_i_funct3, hf]
    change (if funct6 word = 0 then _ else if funct6 word = 0b010000 then _ else _) = _
    rw [if_neg h0, if_neg h16]
  · obtain ⟨h, hh, hline⟩ : ∃ h, opImmHandler word = some h ∧ lineOf word addr = h.line := by
      unfold opImmHandler lineOf
      rw [hop]
      rcases funct3_values (funct3Of word) with hf | hf | hf | hf | hf | hf | hf | hf
      case inr.inr.inr.inr.inr.inl =>
        simp only [decode_i_funct3, hf, ← hamount]
        by_cases h0 : funct6 word = 0
        · have hno : ¬ (decodeI word).imm >>> 6 = 0b010000 := by
            rw [hsra, h0]
            decide
          refine ⟨shiftForm word "srli" shamt6 srli, ?_, ?_⟩
          · exact (if_neg hno).trans (if_pos (hsrl.mpr h0))
          · exact if_pos h0
        · have h16 : funct6 word = 0b010000 := by
            apply Decidable.byContradiction
            intro h16
            exact hrej ⟨hf, h0, h16⟩
          refine ⟨shiftForm word "srai" shamt6 srai, ?_, ?_⟩
          · exact if_pos (hsra.mpr h16)
          · exact (if_neg h0).trans (if_pos h16)
      all_goals
        simp only [decode_i_funct3, hf, ← hamount]
        exact ⟨_, rfl, rfl⟩
    exact agrees_of_handler ((op_imm_handler hop).trans hh) hline
      (handler_not_rejected ((@op_imm_handler word addr hop).trans hh) (op_imm_handler_quiet hh))

theorem op_imm32_handler (hop : Opcode.ofRaw (opcodeOf word) = some .opImm32) :
    handlerOf word addr = opImm32Handler word := by
  unfold handlerOf
  rw [hop]

/-- A funct3 of OP-IMM-32 has one line, except for that of the right shifts. -/
theorem op_imm32_line (hop : Opcode.ofRaw (opcodeOf word) = some .opImm32)
    (h5 : funct3Of word ≠ 5) :
    lineOf word addr = .instruction (opImm32Mnemonics (funct3Of word))
      [.register (rdOf word), .register (rs1Of word),
        if funct3Of word = 1 then .decimal (shamt5 (decodeI word).imm)
        else .decimal ((decodeI word).imm.setWidth 32).toInt] := by
  rw [shamt5_operand]
  unfold lineOf
  rw [hop]
  dsimp only
  by_cases h1 : funct3Of word = 1
  · rw [if_pos h1]
    exact if_pos h1
  · rw [if_neg h1]
    exact (if_neg h1).trans (if_neg h5)

theorem word_imm (word : BitVec 32) :
    ((decodeI word).imm.setWidth 32).toInt = (decodeI word).imm.toInt := by
  have hcut : ((field word 20 12).signExtend 64).setWidth 32 = (field word 20 12).signExtend 32 := by
    apply BitVec.eq_of_getLsbD_eq
    intro i hi
    simp only [BitVec.getLsbD_setWidth, BitVec.getLsbD_signExtend]
    simp [hi, show i < 64 by omega]
  rw [decode_i_imm, hcut, BitVec.toInt_signExtend_of_le (by omega),
    BitVec.toInt_signExtend_of_le (by omega)]

/-- The line of a right shift of OP-IMM-32. -/
theorem right_shift_line (hop : Opcode.ofRaw (opcodeOf word) = some .opImm32)
    (h5 : funct3Of word = 5) :
    lineOf word addr =
      if funct7 word = 0 then (shiftForm word "srliw" shamt5 srliw).line
      else if funct7 word = 0b0010000 then (shiftForm word "sraiw" shamt5 sraiw).line
      else .word word := by
  have hamount := shamt5_operand word
  unfold lineOf
  rw [hop]
  simp only [decode_i_funct3, h5, ← hamount]
  rfl

theorem right_shift_handler (h5 : funct3Of word = 5) :
    opImm32Handler word =
      if funct6 word = 0b010000 then some (shiftForm word "sraiw" shamt5 sraiw)
      else if funct6 word = 0 then some (shiftForm word "srliw" shamt5 srliw)
      else none := by
  obtain ⟨hsra, hsrl⟩ := upper_imm word
  unfold opImm32Handler
  simp only [h5, ← hsra, ← hsrl]
  rfl

/-- The right shifts with a 1 in bit 25 are executed, but not shown; nor is
SRAIW, whose funct7 is not the one that is looked for. -/
theorem right_shift_agrees_iff (hop : Opcode.ofRaw (opcodeOf word) = some .opImm32)
    (h5 : funct3Of word = 5) :
    Agrees word addr ↔ funct7 word = 0 ∨
      (funct7 word ≠ 0b0010000 ∧ funct6 word ≠ 0 ∧ funct6 word ≠ 0b010000) := by
  have h6 := funct6_of_funct7 word
  have hline := @right_shift_line word addr hop h5
  have hh := (@op_imm32_handler word addr hop).trans (right_shift_handler h5)
  have hexec : ∀ h, handlerOf word addr = some h → ¬ Rejected word := fun h hsome =>
    handler_not_rejected hsome (op_imm32_handler_quiet ((op_imm32_handler hop).symm.trans hsome))
  by_cases h0 : funct7 word = 0
  · have hzero : funct6 word = 0 := by
      rw [h6, h0]
      rfl
    rw [if_pos h0] at hline
    rw [hzero, if_neg (by decide), if_pos rfl] at hh
    exact ⟨fun _ => Or.inl h0, fun _ => agrees_of_handler hh hline (hexec _ hh)⟩
  rw [if_neg h0] at hline
  by_cases h16 : funct7 word = 0b0010000
  · have height : funct6 word = 0b001000 := by
      rw [h6, h16]
      rfl
    rw [if_pos h16] at hline
    rw [height, if_neg (by decide), if_neg (by decide)] at hh
    constructor
    · intro ha
      obtain ⟨h, hsome, _⟩ := ha.named hline
      rw [hh] at hsome
      cases hsome
    · rintro (hz | ⟨hne, _⟩)
      · exact absurd hz h0
      · exact absurd h16 hne
  · rw [if_neg h16] at hline
    constructor
    · intro ha
      have hrej := ha.unnamed hline
      refine Or.inr ⟨h16, fun hz => ?_, fun hz => ?_⟩
      · rw [hz, if_neg (by decide), if_pos rfl] at hh
        exact hexec _ hh hrej
      · rw [if_pos hz] at hh
        exact hexec _ hh hrej
    · rintro (hz | ⟨_, hz, hz16⟩)
      · exact absurd hz h0
      · refine agrees_of_word (fun vm => op_imm32_refused hop ?_ ?_ fun _ => ⟨hz, hz16⟩) hline
        · rw [h5]
          decide
        · rw [h5]
          decide

theorem op_imm32_agrees_iff (hop : Opcode.ofRaw (opcodeOf word) = some .opImm32) :
    Agrees word addr ↔ funct3Of word = 0 ∨ funct3Of word = 1 ∨
      (funct3Of word = 5 ∧ (funct7 word = 0 ∨
        (funct7 word ≠ 0b0010000 ∧ funct6 word ≠ 0 ∧ funct6 word ≠ 0b010000))) := by
  by_cases h5 : funct3Of word = 5
  · rw [right_shift_agrees_iff hop h5, h5]
    simp
  · have hsome : ∀ f : BitVec 3, f ≠ 5 →
        (opImm32Mnemonics f ≠ none ↔ f = 0 ∨ f = 1) := by decide
    have htable := agrees_by_table (@op_imm32_line word addr hop h5) (by
      rw [op_imm32_handler hop, word_imm]
      rcases funct3_values (funct3Of word) with hf | hf | hf | hf | hf | hf | hf | hf
      case inr.inr.inr.inr.inr.inl => exact absurd hf h5
      all_goals
        simp only [opImm32Handler, opImm32Mnemonics, hf]
        rfl) fun h hh => handler_not_rejected hh
          (op_imm32_handler_quiet ((op_imm32_handler hop).symm.trans hh))
    rw [htable, hsome _ h5]
    constructor
    · rintro (h0 | h1)
      · exact Or.inl h0
      · exact Or.inr (Or.inl h1)
    · rintro (h0 | h1 | ⟨hf, _⟩)
      · exact Or.inl h0
      · exact Or.inr h1
      · exact absurd hf h5

theorem misc_mem_agrees_iff (hop : Opcode.ofRaw (opcodeOf word) = some .miscMem) :
    Agrees word addr ↔ Encodings.MiscMem word := by
  have hh : handlerOf word addr = miscMemHandler word := by
    unfold handlerOf
    rw [hop]
  have hline : lineOf word addr = .instruction (miscMemMnemonics (funct3Of word)) [] := by
    unfold lineOf
    rw [hop]
    rfl
  constructor
  · intro ha
    apply Classical.byContradiction
    intro hno
    have hword := ha.rejected fun vm => misc_mem_refused hop hno
    rw [hline] at hword
    cases hword
  · rintro (hf | ⟨hf, hrd, hrs1, himm⟩)
    · have hf' : funct3Of word = 0 := hf
      rw [hf'] at hline
      have hfence : handlerOf word addr = some (bareForm word "fence" fence) := by
        rw [hh]
        simp only [miscMemHandler, hf']
        rfl
      exact agrees_of_handler hfence hline (handler_not_rejected hfence rfl)
    · have hf' : funct3Of word = 1 := hf
      rw [hf'] at hline
      have hfence : handlerOf word addr = some (bareForm word "fence.i" fenceI) := by
        rw [hh]
        simp only [miscMemHandler, hf']
        rfl
      refine agrees_of_handler hfence hline (handler_not_rejected hfence ?_)
      have himm' : (decodeI word).imm = 0 := (imm_eq_iff (n := 0) (by omega)).mpr himm
      have hnone : ¬ ((decodeI word).rd ≠ 0 ∨ (decodeI word).rs1 ≠ 0 ∨ (decodeI word).imm ≠ 0) := by
        rintro (hne | hne | hne)
        · exact hne hrd
        · exact hne hrs1
        · exact hne himm'
      change (fenceI unloaded (decodeI word)).cpu.trapTaken = false
      unfold fenceI
      rw [if_neg hnone]
      rfl

end

end RiscvVm.Proofs
