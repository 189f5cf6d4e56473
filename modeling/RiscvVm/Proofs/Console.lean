import RiscvVm.Proofs.Boot
import RiscvVm.Proofs.Lockstep
import RiscvVm.Proofs.Uart
import RiscvVm.Proofs.UserRuns

namespace RiscvVm.Proofs

def IsByteStore (word : BitVec 32) : Prop := opcodeOf word = Opcode.code .store ∧ funct3Of word = 0

instance (word : BitVec 32) : Decidable (IsByteStore word) := inferInstanceAs (Decidable (_ ∧ _))

/-- The access to the UART that an access of this kind to a virtual address is,
if it gets there. -/
def toUart (vm : Vm) (acc : AccessType) (va : BitVec 64) (access : BitVec 64 → UartAccess) :
    Option UartAccess :=
  match (translateAddress vm.cpu vm.bus va acc).2 with
  | .ok p => if addrInRange p uartBase uartSize then some (access (p - uartBase)) else none
  | .error _ => none

/-- What the word asks of the UART: only single bytes reach it. -/
def uartRequest (vm : Vm) (word : BitVec 32) : Option UartAccess :=
  if IsByteLoad word then
    toUart vm .load ((decodeI word).imm + cpuReadReg vm.cpu (rs1Of word)) .read
  else if IsByteStore word then
    toUart vm .store (cpuReadReg vm.cpu (rs1Of word) + (decodeS word).imm)
      (.write · ((cpuReadReg vm.cpu (rs2Of word)).setWidth 8))
  else none

/-- What a step asks of the UART. -/
def stepRequest (vm : Vm) : Option UartAccess :=
  match translateAddress vm.cpu vm.bus vm.cpu.pc .fetch with
  | (_, .error _) => none
  | (bus, .ok p) => uartRequest (fetched vm bus) (vmBusRead32 bus p)

/-- The character that an access sends to the host. -/
def sent (uart : Uart) : UartAccess → Option (BitVec 8)
  | .write offset value => (uartWrite8 uart offset value).2
  | _ => none

def Terminal.sends : Terminal → List UartAccess → List (BitVec 8)
  | _, [] => []
  | t, access :: accesses => (sent t.uart access).toList ++ (t.access access).sends accesses

theorem terminal_run_append (t : Terminal) (xs ys : List UartAccess) :
    t.run (xs ++ ys) = (t.run xs).run ys := by
  induction xs generalizing t with
  | nil => rfl
  | cons x xs ih => exact ih (t.access x)

theorem terminal_sends_append (t : Terminal) (xs ys : List UartAccess) :
    t.sends (xs ++ ys) = t.sends xs ++ (t.run xs).sends ys := by
  induction xs generalizing t with
  | nil => rfl
  | cons x xs ih =>
    simp only [List.cons_append, Terminal.sends, Terminal.run, ih, List.append_assoc]

/-- The UART and the terminal have seen this access, or none. -/
structure Serves (bus bus' : Bus) (request : Option UartAccess) : Prop where
  uart : ∀ stdin, ({ uart := bus'.uart, stdin := stdin } : Terminal) =
    Terminal.run { uart := bus.uart, stdin := stdin } request.toList
  transmitted : bus'.transmitted = bus.transmitted ++ ((request.bind (sent bus.uart)).toList)

theorem Serves.silent {bus bus' : Bus} (hu : bus'.uart = bus.uart)
    (ho : bus'.transmitted = bus.transmitted) : Serves bus bus' none :=
  ⟨fun stdin => by rw [hu]; rfl, by simp [ho]⟩

/-- Walks are silent. -/
theorem translate_silent (cpu : Cpu) (bus : Bus) (va : BitVec 64) (acc : AccessType) :
    (translateAddress cpu bus va acc).1.uart = bus.uart ∧
      (translateAddress cpu bus va acc).1.transmitted = bus.transmitted := by
  rcases ht : translateAddress cpu bus va acc with ⟨bus', e | p⟩
  · rw [(translate_error ht).1]
    exact ⟨rfl, rfl⟩
  · rcases translate_ok ht with ⟨rfl, _⟩ | ⟨_, _, _, _, _, _, hset⟩
    · exact ⟨rfl, rfl⟩
    · exact ⟨hset.uart, hset.transmitted⟩

theorem uart_not_ram {p : BitVec 64} (h : addrInRange p uartBase uartSize = true) :
    addrInRange p ramBase ramSize = false := by
  obtain ⟨hlow, hhigh⟩ := (Bool.and_eq_true_iff.mp h).imp of_decide_eq_true of_decide_eq_true
  cases hr : addrInRange p ramBase ramSize with
  | false => rfl
  | true =>
    obtain ⟨hram, _⟩ := (ram_range_iff p).mp hr
    simp only [uartBase, uartSize] at hlow hhigh
    simp only [memBase] at hram
    bv_omega

/-- The bus access that a load of this width makes. -/
theorem bus_read_serves (width : Width) (bus : Bus) (p : BitVec 64) :
    Serves bus (vmBusRead width bus p).1
      (if width = .w8 ∧ addrInRange p uartBase uartSize = true then some (.read (p - uartBase))
        else none) := by
  cases width with
  | w8 =>
    by_cases hu : addrInRange p uartBase uartSize = true
    · rw [if_pos ⟨rfl, hu⟩]
      simp only [vmBusRead, vmBusRead8, uart_not_ram hu, hu, if_true]
      exact ⟨fun _ => rfl, by simp [sent]⟩
    · rw [if_neg fun h => hu h.2]
      simp only [vmBusRead, vmBusRead8, hu]
      split
      · exact .silent rfl rfl
      · exact .silent rfl rfl
  | w16 => exact .silent rfl rfl
  | w32 => exact .silent rfl rfl
  | w64 => exact .silent rfl rfl

theorem bus_write_serves (width : Width) (bus : Bus) (p value : BitVec 64) :
    Serves bus (vmBusWrite width bus p value)
      (if width = .w8 ∧ addrInRange p uartBase uartSize = true then
        some (.write (p - uartBase) (value.setWidth 8)) else none) := by
  cases width with
  | w8 =>
    by_cases hu : addrInRange p uartBase uartSize = true
    · rw [if_pos ⟨rfl, hu⟩]
      simp only [vmBusWrite, vmBusWrite8, uart_not_ram hu, hu, if_true]
      exact ⟨fun _ => rfl, rfl⟩
    · rw [if_neg fun h => hu h.2]
      simp only [vmBusWrite, vmBusWrite8, hu]
      split
      · exact .silent rfl rfl
      · exact .silent rfl rfl
  | w16 =>
    refine .silent ?_ ?_
    all_goals
      simp only [vmBusWrite, vmBusWrite16]
      split <;> rfl
  | w32 =>
    refine .silent ?_ ?_
    all_goals
      simp only [vmBusWrite, vmBusWrite32]
      repeat' split
      all_goals rfl
  | w64 =>
    refine .silent ?_ ?_
    all_goals
      simp only [vmBusWrite, vmBusWrite64]
      repeat' split
      all_goals rfl

/-- An access that follows a silent walk. -/
theorem Serves.after {bus walked bus' : Bus} {request : Option UartAccess}
    (h : Serves walked bus' request) (hu : walked.uart = bus.uart)
    (ho : walked.transmitted = bus.transmitted) : Serves bus bus' request := by
  obtain ⟨huart, htransmitted⟩ := h
  rw [hu] at huart htransmitted
  rw [ho] at htransmitted
  exact ⟨huart, htransmitted⟩

section
variable (vm : Vm)

theorem load_serves (width : Width) (extend : BitVec 64 → BitVec 64) (instruction : IType) :
    Serves vm.bus (loadOp width extend vm instruction).bus
      (if width = .w8 then
        toUart vm .load (instruction.imm + cpuReadReg vm.cpu instruction.rs1) .read
      else none) := by
  obtain ⟨hu, ho⟩ := translate_silent vm.cpu vm.bus
    (instruction.imm + cpuReadReg vm.cpu instruction.rs1) .load
  unfold loadOp cpuLoad toUart
  dsimp only
  rcases ht : translateAddress vm.cpu vm.bus (instruction.imm + cpuReadReg vm.cpu instruction.rs1)
    .load with ⟨bus, e | p⟩
  · rw [ht] at hu ho
    simp only [ite_self]
    exact .silent hu ho
  · rw [ht] at hu ho
    have hread := (bus_read_serves width bus p).after hu ho
    rw [ite_and] at hread
    exact hread

theorem store_serves (width : Width) (instruction : SType) :
    Serves vm.bus (storeOp width vm instruction).bus
      (if width = .w8 then
        toUart vm .store (cpuReadReg vm.cpu instruction.rs1 + instruction.imm)
          (.write · ((cpuReadReg vm.cpu instruction.rs2).setWidth 8))
      else none) := by
  obtain ⟨hu, ho⟩ := translate_silent vm.cpu vm.bus
    (cpuReadReg vm.cpu instruction.rs1 + instruction.imm) .store
  unfold storeOp cpuStore toUart
  dsimp only
  rcases ht : translateAddress vm.cpu vm.bus (cpuReadReg vm.cpu instruction.rs1 + instruction.imm)
    .store with ⟨bus, e | p⟩
  · rw [ht] at hu ho
    simp only [ite_self]
    exact .silent hu ho
  · rw [ht] at hu ho
    have hwrite := (bus_write_serves width bus p (cpuReadReg vm.cpu instruction.rs2)).after hu ho
    rw [ite_and] at hwrite
    exact hwrite

/-- Atomic accesses are words or doublewords. -/
theorem atomic_silent {w : Nat} {atomic : AtomicWidth w} {width : Width}
    (hs : SameWidth atomic width) (h8 : width ≠ .w8) (bus : Bus) (p : BitVec 64) (v : BitVec w) :
    Serves bus (atomic.write bus p v) none := by
  have hwrite := bus_write_serves width bus p (v.setWidth 64)
  rw [if_neg fun h => h8 h.1] at hwrite
  rw [hs.write]
  exact hwrite

section
variable {w : Nat} {atomic : AtomicWidth w} {width : Width} (hs : SameWidth atomic width)
  (h8 : width ≠ .w8) (instruction : AType)
include hs h8

theorem amo_serves : Serves vm.bus (amo atomic vm instruction).bus none := by
  obtain ⟨hu, ho⟩ := translate_silent vm.cpu vm.bus (cpuReadReg vm.cpu instruction.rs1) .store
  unfold amo
  dsimp only
  split
  · exact .silent rfl rfl
  rcases ht : translateAddress vm.cpu vm.bus (cpuReadReg vm.cpu instruction.rs1) .store with
    ⟨bus, e | p⟩
  · rw [ht] at hu ho
    exact .silent hu ho
  · rw [ht] at hu ho
    dsimp only
    split
    · exact .silent hu ho
    · exact (atomic_silent hs h8 bus p _).after hu ho

omit hs h8 in
theorem lr_serves (atomic : AtomicWidth w) : Serves vm.bus (lr atomic vm instruction).bus none := by
  obtain ⟨hu, ho⟩ := translate_silent vm.cpu vm.bus (cpuReadReg vm.cpu instruction.rs1) .load
  unfold lr
  dsimp only
  split
  · exact .silent rfl rfl
  split
  · exact .silent rfl rfl
  rcases ht : translateAddress vm.cpu vm.bus (cpuReadReg vm.cpu instruction.rs1) .load with
    ⟨bus, e | p⟩
  · rw [ht] at hu ho
    exact .silent hu ho
  · rw [ht] at hu ho
    exact .silent hu ho

theorem sc_serves : Serves vm.bus (sc atomic vm instruction).bus none := by
  obtain ⟨hu, ho⟩ := translate_silent vm.cpu vm.bus (cpuReadReg vm.cpu instruction.rs1) .store
  unfold sc
  dsimp only
  split
  · exact .silent rfl rfl
  rcases ht : translateAddress vm.cpu vm.bus (cpuReadReg vm.cpu instruction.rs1) .store with
    ⟨bus, e | p⟩
  · rw [ht] at hu ho
    exact .silent hu ho
  · rw [ht] at hu ho
    dsimp only
    split
    · exact (atomic_silent hs h8 bus p _).after hu ho
    · exact .silent hu ho

end

theorem a_extension_serves (instruction : AType) :
    Serves vm.bus (dispatchAExtension vm instruction).bus none := by
  have hw : Width.w32 ≠ .w8 := by decide
  have hd : Width.w64 ≠ .w8 := by decide
  unfold dispatchAExtension
  split
  · split
    · exact amo_serves vm atomic_w_width hw instruction
    split
    · exact amo_serves vm atomic_d_width hd instruction
    · exact .silent rfl rfl
  split
  · split
    · exact lr_serves vm instruction atomicW
    split
    · exact lr_serves vm instruction atomicD
    · exact .silent rfl rfl
  split
  · split
    · exact sc_serves vm atomic_w_width hw instruction
    split
    · exact sc_serves vm atomic_d_width hd instruction
    · exact .silent rfl rfl
  · exact .silent rfl rfl

theorem dispatch_load_serves {word : BitVec 32} (hop : opcodeOf word = Opcode.code .load) :
    Serves vm.bus (dispatchLoad vm (decodeI word)).bus (uartRequest vm word) := by
  have hstore : ¬ IsByteStore word := fun h => absurd (hop.symm.trans h.1) (by decide)
  have hload : IsByteLoad word ↔ funct3Of word = 0 ∨ funct3Of word = 4 :=
    and_iff_right hop
  unfold uartRequest
  rw [if_neg hstore]
  unfold dispatchLoad
  split
  all_goals
    rename_i h3
    rw [decode_i_funct3] at h3
  · rw [if_pos (hload.mpr (Or.inl h3))]
    exact load_serves vm .w8 _ _
  · rw [if_neg (mt hload.mp (by rw [h3]; decide))]
    exact load_serves vm .w16 _ _
  · rw [if_neg (mt hload.mp (by rw [h3]; decide))]
    exact load_serves vm .w32 _ _
  · rw [if_neg (mt hload.mp (by rw [h3]; decide))]
    exact load_serves vm .w64 _ _
  · rw [if_pos (hload.mpr (Or.inr h3))]
    exact load_serves vm .w8 _ _
  · rw [if_neg (mt hload.mp (by rw [h3]; decide))]
    exact load_serves vm .w16 _ _
  · rw [if_neg (mt hload.mp (by rw [h3]; decide))]
    exact load_serves vm .w32 _ _
  · rename_i h0 _ _ _ h4 _
    rw [if_neg (mt hload.mp fun h => h.elim h0 h4)]
    exact .silent rfl rfl

theorem dispatch_store_serves {word : BitVec 32} (hop : opcodeOf word = Opcode.code .store) :
    Serves vm.bus (dispatchStore vm (decodeS word)).bus (uartRequest vm word) := by
  have hload : ¬ IsByteLoad word := fun h => absurd (hop.symm.trans h.1) (by decide)
  have hstore : IsByteStore word ↔ funct3Of word = 0 := and_iff_right hop
  unfold uartRequest
  rw [if_neg hload]
  unfold dispatchStore
  split
  all_goals
    rename_i h3
    rw [decode_s_funct3] at h3
  · rw [if_pos (hstore.mpr h3)]
    exact store_serves vm .w8 _
  · rw [if_neg (mt hstore.mp (by rw [h3]; decide))]
    exact store_serves vm .w16 _
  · rw [if_neg (mt hstore.mp (by rw [h3]; decide))]
    exact store_serves vm .w32 _
  · rw [if_neg (mt hstore.mp (by rw [h3]; decide))]
    exact store_serves vm .w64 _
  · rename_i h0 _ _
    rw [if_neg (mt hstore.mp h0)]
    exact .silent rfl rfl

/-- Every word asks of the UART what it gets. -/
theorem dispatch_serves (word : BitVec 32) :
    Serves vm.bus (dispatchInstruction vm word).bus (uartRequest vm word) := by
  by_cases hl : opcodeOf word = Opcode.code .load
  · rw [dispatch_word, of_raw_of_code hl]
    exact dispatch_load_serves vm hl
  by_cases hs : opcodeOf word = Opcode.code .store
  · rw [dispatch_word, of_raw_of_code hs]
    exact dispatch_store_serves vm hs
  have hquiet : uartRequest vm word = none := by
    unfold uartRequest
    rw [if_neg fun h => hl h.1, if_neg fun h => hs h.1]
  rw [hquiet]
  by_cases ha : opcodeOf word = Opcode.code .amo
  · rw [dispatch_word, of_raw_of_code ha]
    exact a_extension_serves vm _
  have hno : dataAccess vm word = none := by
    unfold dataAccess
    cases hop : Opcode.ofRaw (opcodeOf word) with
    | none => rfl
    | some opcode =>
      have hcode := of_raw_eq hop
      cases opcode <;> first | rfl | contradiction
  have hbus := executes_bus (dispatch_executes vm word) hno
  exact .silent (congrArg Bus.uart hbus) (congrArg Bus.transmitted hbus)

theorem step_serves : Serves vm.bus (cpuStep vm).bus (stepRequest vm) := by
  rcases fetch_cases vm with ⟨ht, _⟩ | ⟨bus, p, ht, _⟩
  · obtain ⟨hs, hp⟩ := @step_of_fault vm (by unfold fetchedWord; rw [ht])
    unfold stepRequest
    rw [ht, hs, hp]
    exact .silent rfl rfl
  · obtain ⟨hp, hs⟩ := step_of_fetch ht
    obtain ⟨hu, ho⟩ := translate_silent vm.cpu vm.bus vm.cpu.pc .fetch
    unfold stepRequest
    rw [hs, hp, ht]
    rw [ht] at hu ho
    exact (dispatch_serves (fetched vm bus) (vmBusRead32 bus p)).after hu ho

end

/-- What LB or LBU makes of a byte. -/
def extendByte (word : BitVec 32) (byte : BitVec 8) : BitVec 64 :=
  if funct3Of word = 0 then byte.signExtend 64 else byte.setWidth 64

/-- A word that reads the UART is a byte load that gets there. -/
theorem request_read {vm : Vm} {word : BitVec 32} {offset : BitVec 64}
    (h : uartRequest vm word = some (.read offset)) :
    IsByteLoad word ∧ ∃ bus p, translateAddress vm.cpu vm.bus
        ((decodeI word).imm + cpuReadReg vm.cpu (rs1Of word)) .load = (bus, .ok p) ∧
      addrInRange p uartBase uartSize = true ∧ offset = p - uartBase := by
  unfold uartRequest toUart at h
  by_cases hload : IsByteLoad word
  · rw [if_pos hload] at h
    refine ⟨hload, ?_⟩
    rcases ht : translateAddress vm.cpu vm.bus ((decodeI word).imm + cpuReadReg vm.cpu (rs1Of word))
      .load with ⟨bus, e | p⟩
    · rw [ht] at h
      cases h
    · rw [ht] at h
      dsimp only at h
      split at h
      · cases h
        exact ⟨bus, p, rfl, ‹_›, rfl⟩
      · cases h
  · rw [if_neg hload] at h
    repeat' split at h
    all_goals cases h

/-- A byte load from the UART puts what the UART gives into `rd`. -/
theorem uart_load_op {vm : Vm} {instruction : IType} {bus : Bus} {p : BitVec 64}
    (ht : translateAddress vm.cpu vm.bus (instruction.imm + cpuReadReg vm.cpu instruction.rs1)
      .load = (bus, .ok p))
    (hin : addrInRange p uartBase uartSize = true) (extend : BitVec 64 → BitVec 64) :
    loadOp .w8 extend vm instruction =
      { cpu := cpuWriteReg vm.cpu instruction.rd
          (extend ((uartRead8 bus.uart (p - uartBase)).2.setWidth 64))
        bus := { bus with uart := (uartRead8 bus.uart (p - uartBase)).1 } } := by
  have hread : vmBusRead .w8 bus p =
      ({ bus with uart := (uartRead8 bus.uart (p - uartBase)).1 },
        (uartRead8 bus.uart (p - uartBase)).2.setWidth 64) := by
    simp only [vmBusRead, vmBusRead8, uart_not_ram hin, hin, if_true]
    rfl
  unfold loadOp cpuLoad
  dsimp only
  rw [ht]
  dsimp only
  rw [hread]

theorem extend_byte (byte : BitVec 8) :
    signExtend ((byte.setWidth 64).setWidth 32) 8 = byte.signExtend 64 := by
  rw [BitVec.setWidth_setWidth_of_le _ (by omega)]
  exact sign_extend_field _ (by omega) (by omega)

theorem dispatch_receives {vm : Vm} {word : BitVec 32} {offset : BitVec 64}
    (h : uartRequest vm word = some (.read offset)) :
    (dispatchInstruction vm word).cpu.regs =
      (cpuWriteReg vm.cpu (rdOf word)
        (extendByte word (uartRead8 vm.bus.uart offset).2)).regs := by
  obtain ⟨⟨hop, h3⟩, bus, p, ht, hin, rfl⟩ := request_read h
  obtain ⟨hu, _⟩ := translate_silent vm.cpu vm.bus
    ((decodeI word).imm + cpuReadReg vm.cpu (rs1Of word)) .load
  rw [ht] at hu
  rw [dispatch_word, of_raw_of_code hop, ← hu]
  dsimp only
  unfold dispatchLoad
  rcases h3 with h3 | h3
  · rw [decode_i_funct3, h3]
    refine (congrArg (fun vm : Vm => vm.cpu.regs) (uart_load_op ht hin _)).trans ?_
    unfold extendByte
    rw [if_pos h3, extend_byte]
    rfl
  · rw [decode_i_funct3, h3]
    refine (congrArg (fun vm : Vm => vm.cpu.regs) (uart_load_op ht hin _)).trans ?_
    unfold extendByte
    rw [if_neg (by rw [h3]; decide)]
    rfl

/-- The registers after a step that reads the UART. -/
theorem step_receives {vm : Vm} {offset : BitVec 64} (h : stepRequest vm = some (.read offset)) :
    ∃ word, fetchedWord vm = some word ∧ IsByteLoad word ∧
      (cpuStep vm).cpu.regs = (cpuWriteReg vm.cpu (rdOf word)
        (extendByte word (uartRead8 vm.bus.uart offset).2)).regs := by
  rcases fetch_cases vm with ⟨ht, _⟩ | ⟨bus, p, ht, _⟩
  · unfold stepRequest at h
    rw [ht] at h
    cases h
  · obtain ⟨hp, hs⟩ := step_of_fetch ht
    obtain ⟨hu, _⟩ := translate_silent vm.cpu vm.bus vm.cpu.pc .fetch
    unfold stepRequest at h
    rw [ht] at h hu
    have hdone := dispatch_receives h
    refine ⟨vmBusRead32 bus p, ?_, (request_read h).1, ?_⟩
    · unfold fetchedWord
      rw [ht]
    · have hframe := check_interrupts_frame
        (retire (dispatchInstruction (fetched vm bus) (vmBusRead32 bus p))).cpu
      rw [hs, hp]
      refine hframe.regs.trans ((retire_regs _).trans (hdone.trans ?_))
      have huart : (fetched vm bus).bus.uart = vm.bus.uart := hu
      rw [huart]
      exact funext fun r => by rw [write_reg_regs, write_reg_regs]; rfl

theorem host_byte_eq (uart : Uart) (stdin : List (BitVec 8)) (ready : Bool) :
    ({ uart := uartHandleHostInput uart (hostByte uart stdin ready).1
       stdin := (hostByte uart stdin ready).2 } : Terminal) =
      Terminal.handleHostInput { uart := uart, stdin := stdin } ready := by
  unfold hostByte Terminal.handleHostInput
  dsimp only
  by_cases hfull : uart.rxCount = uartFifoSize
  · rw [if_pos hfull, if_pos hfull]
    unfold uartHandleHostInput
    rw [if_pos hfull]
  · rw [if_neg hfull, if_neg hfull]
    cases ready <;> cases stdin <;> rfl

def runningTerminal (run : Running) : Terminal := { uart := run.vm.bus.uart, stdin := run.stdin }

/-- The accesses to the UART in an iteration of the loop: that of the
instruction, then the host's, every thousandth time. -/
def accessesOf (run : Running) (ready : Bool) : List UartAccess :=
  (stepRequest run.vm).toList ++ if run.counter + 1 = 1000 then [.host ready] else []

/-- The accesses in a run of the loop. -/
def script : Running → List Bool → List UartAccess
  | _, [] => []
  | run, ready :: polls => accessesOf run ready ++ script (run.iterate ready) polls

theorem iterate_serves (run : Running) (ready : Bool) :
    runningTerminal (run.iterate ready) = (runningTerminal run).run (accessesOf run ready) ∧
      (run.iterate ready).vm.bus.transmitted =
        run.vm.bus.transmitted ++ (runningTerminal run).sends (accessesOf run ready) := by
  obtain ⟨huart, htransmitted⟩ := step_serves run.vm
  have hsends : ((stepRequest run.vm).bind (sent run.vm.bus.uart)).toList =
      (runningTerminal run).sends (stepRequest run.vm).toList := by
    cases stepRequest run.vm with
    | none => rfl
    | some access => exact (List.append_nil _).symm
  unfold accessesOf Running.iterate
  dsimp only
  by_cases hturn : run.counter + 1 = 1000
  · rw [if_pos hturn, if_pos hturn, terminal_run_append, terminal_sends_append]
    refine ⟨?_, ?_⟩
    · refine (host_byte_eq _ run.stdin ready).trans ?_
      exact congrArg (Terminal.handleHostInput · ready) (huart run.stdin)
    · rw [← hsends]
      have hhost : ∀ t : Terminal, t.sends [.host ready] = [] := fun _ => rfl
      rw [hhost, List.append_nil]
      exact htransmitted
  · rw [if_neg hturn, if_neg hturn, List.append_nil]
    refine ⟨huart run.stdin, ?_⟩
    rw [← hsends]
    exact htransmitted

/-- The terminal over a run. -/
theorem run_serves (run : Running) (polls : List Bool) :
    runningTerminal (polls.foldl Running.iterate run) =
        (runningTerminal run).run (script run polls) ∧
      (polls.foldl Running.iterate run).vm.bus.transmitted =
        run.vm.bus.transmitted ++ (runningTerminal run).sends (script run polls) := by
  induction polls generalizing run with
  | nil => exact ⟨rfl, (List.append_nil _).symm⟩
  | cons ready polls ih =>
    obtain ⟨hterminal, htransmitted⟩ := iterate_serves run ready
    obtain ⟨hlast, hout⟩ := ih (run.iterate ready)
    rw [List.foldl_cons, script, terminal_run_append, terminal_sends_append]
    refine ⟨?_, ?_⟩
    · rw [hlast, hterminal]
    · rw [hout, htransmitted, hterminal, List.append_assoc]

theorem iterate_reachable {run : Running} (h : Reachable run.vm) (ready : Bool) :
    Reachable (run.iterate ready).vm := by
  unfold Running.iterate
  dsimp only
  split
  · exact .iterate run.vm (.poll _) h
  · exact .iterate run.vm .quiet h

theorem run_reachable {run : Running} (h : Reachable run.vm) (polls : List Bool) :
    Reachable (polls.foldl Running.iterate run).vm := by
  induction polls generalizing run with
  | nil => exact h
  | cons ready polls ih => exact ih (iterate_reachable h ready)

/-- What the program is for its terminal, from its start on. The UART has seen
the accesses of the byte loads and stores that got there, and the host's polls
between them; it has sent the host just the characters that were stored to its
transmitter. Unless the guest has cleared the receiver, it has been given what
was typed, in order and once, but for what the FIFO and the host still have;
and a load gets what the UART gives. -/
theorem main_terminal {fopen : String → Option (List (BitVec 8))} {ram : Memory} {vm : Vm}
    (hboot : mainBoot fopen ram = some (.ok vm)) (stdin : List (BitVec 8)) (polls : List Bool) :
    let start : Running := { vm := vm, counter := 0, stdin := stdin }
    let last := polls.foldl Running.iterate start
    let accesses := script start polls
    Reachable last.vm ∧
      runningTerminal last = (Terminal.start stdin).run accesses ∧
      last.vm.bus.transmitted = (Terminal.start stdin).sends accesses ∧
      (.clear ∉ (Terminal.start stdin).ops accesses →
        stdin = (Terminal.start stdin).reads accesses ++
          (queued last.vm.bus.uart ++ last.stdin)) ∧
      ∀ offset, stepRequest last.vm = some (.read offset) →
        ∃ word, fetchedWord last.vm = some word ∧ IsByteLoad word ∧
          (cpuStep last.vm).cpu.regs = (cpuWriteReg last.vm.cpu (rdOf word)
            (extendByte word (uartRead8 last.vm.bus.uart offset).2)).regs := by
  intro start last accesses
  obtain ⟨images, _, _, rfl⟩ := (main_boot_iff fopen ram vm).mp hboot
  obtain ⟨hterminal, htransmitted⟩ := run_serves start polls
  have hreachable : Reachable last.vm := @run_reachable start (.boot _) polls
  refine ⟨hreachable, hterminal, htransmitted, fun hclear => ?_, fun offset h => step_receives h⟩
  have hconserved := Queue.run_conserves 16 (Terminal.start stdin).queue hclear
  rw [(run_refines init_indexed accesses).2] at hconserved
  have hlast : (Terminal.start stdin).run accesses = runningTerminal last := hterminal.symm
  rw [hlast] at hconserved
  exact hconserved

/-- `lui x5, 0x10000; addi x6, x0, 0x48; sb x6, 0(x5)` for the firmware, and
nothing else. -/
def helloFiles (path : String) : Option (List (BitVec 8)) :=
  if path = "src/vm/fw_jump.bin" then
    some [0xB7, 0x02, 0x00, 0x10, 0x13, 0x03, 0x80, 0x04, 0x23, 0x80, 0x62, 0x00]
  else some []

def helloImages : Images :=
  { fw := [0xB7, 0x02, 0x00, 0x10, 0x13, 0x03, 0x80, 0x04, 0x23, 0x80, 0x62, 0x00]
    dtb := []
    kernel := [] }

theorem hello_boots : mainBoot helloFiles (ramOf []) =
    some (.ok (vmBoot (bootRam (ramOf []) helloImages))) :=
  (main_boot_iff _ _ _).mpr
    ⟨helloImages, ⟨by decide, by decide, by decide⟩, ⟨by decide, by decide, by decide⟩, rfl⟩

theorem hello_prints :
    ([false, false, false].foldl Running.iterate
      { vm := vmBoot (bootRam (ramOf []) helloImages)
        counter := 0
        stdin := [] }).vm.bus.transmitted = [0x48] :=
  (main_terminal hello_boots [] [false, false, false]).2.2.1.trans (by decide +kernel)

end RiscvVm.Proofs
