import RiscvVm.Disassembler
import RiscvVm.Proofs.Debugger
import RiscvVm.Proofs.Walks

namespace RiscvVm.Proofs
open Sv39

/-- The word of the physical memory at the pc. -/
def wordAtPc (vm : Vm) : BitVec 32 := vmBusRead32 vm.bus vm.cpu.pc

theorem disassembled_word (vm : Vm) : (disassembleLine vm vm.cpu.pc).2 = wordAtPc vm :=
  BitVec.setWidth_setWidth_of_le (vmBusRead32 vm.bus vm.cpu.pc) (show 32 ≤ 64 by omega)

/-- The commands of the debugger show `word` for the instruction at the pc: in
whatever run of `step` or `run` they come to this machine, and in `state`. -/
structure Shows (vm : Vm) (word : BitVec 32) : Prop where
  step : ∀ start k steps, k < steps → stepLoop k start = vm → (stepWords steps start)[k]? = some word
  run : ∀ breakpoints start k turns, k < turns → stepLoop k start = vm →
    NoBreakpoint breakpoints start k → isBreakpoint breakpoints vm.cpu.pc = true →
    runWord breakpoints turns start = some word
  state : stateWord vm = word

/-- Each line of `step` is of the machine that the steps before it have left. -/
theorem step_words_get (start : Vm) {k steps : Nat} (h : k < steps) :
    (stepWords steps start)[k]? = some (wordAtPc (stepLoop k start)) := by
  induction k generalizing steps start with
  | zero =>
    obtain ⟨steps, rfl⟩ := Nat.exists_eq_succ_of_ne_zero (Nat.ne_of_gt h)
    exact congrArg some (disassembled_word start)
  | succ k ih =>
    obtain ⟨steps, rfl⟩ := Nat.exists_eq_succ_of_ne_zero (Nat.ne_of_gt (Nat.zero_lt_of_lt h))
    exact ih (cpuStep start) (Nat.lt_of_succ_lt_succ h)

/-- `run` shows the machine at the first breakpoint. -/
theorem run_word_at (breakpoints : Breakpoints) (start : Vm) {k turns : Nat} (h : k < turns)
    (hno : NoBreakpoint breakpoints start k)
    (hat : isBreakpoint breakpoints (stepLoop k start).cpu.pc = true) :
    runWord breakpoints turns start = some (wordAtPc (stepLoop k start)) := by
  induction k generalizing turns start with
  | zero =>
    obtain ⟨turns, rfl⟩ := Nat.exists_eq_succ_of_ne_zero (Nat.ne_of_gt h)
    rw [runWord]
    exact (if_pos hat).trans (congrArg some (disassembled_word start))
  | succ k ih =>
    obtain ⟨turns, rfl⟩ := Nat.exists_eq_succ_of_ne_zero (Nat.ne_of_gt (Nat.zero_lt_of_lt h))
    have hfirst : ¬ isBreakpoint breakpoints start.cpu.pc = true :=
      Bool.eq_false_iff.mp (hno 0 (Nat.succ_pos k))
    rw [runWord, if_neg hfirst]
    exact ih (cpuStep start) (Nat.lt_of_succ_lt_succ h)
      (fun j hj => hno (j + 1) (Nat.succ_lt_succ hj)) hat

theorem shows_iff (vm : Vm) (word : BitVec 32) :
    Shows vm word ↔ wordAtPc vm = word ∧ wordAtPc (cpuFetch vm).1 = word := by
  have hstate : stateWord vm = wordAtPc (cpuFetch vm).1 := disassembled_word _
  constructor
  · intro h
    have hfirst := h.step vm 0 1 Nat.one_pos rfl
    rw [step_words_get vm Nat.one_pos] at hfirst
    exact ⟨Option.some.inj hfirst, hstate.symm.trans h.state⟩
  · rintro ⟨hword, hafter⟩
    refine ⟨?_, ?_, hstate.trans hafter⟩
    · rintro start k steps hk rfl
      rw [step_words_get start hk, hword]
    · rintro breakpoints start k turns hk rfl hno hat
      rw [run_word_at breakpoints start hk hno hat, hword]

/-- Fetches go to the address itself. -/
def Untranslated (cpu : Cpu) : Prop :=
  satpMode cpu = 0 ∨ effectivePriviledge cpu .fetch = mMode

/-- The walk for the pc ends in the leaf at `addr`. -/
def LeafAt (vm : Vm) (level : Nat) (addr : BitVec 64) : Prop :=
  Walk (vmBusRead64 vm.bus) vm.cpu.pc 2 (pageAddr (rootOf vm.cpu)) level addr

/-- Where the pc of a machine that can fetch names its instruction: where it is not
translated, or the page table maps it to itself, or to memory that happens to hold
the same word. Marking the entry may not change the instruction. -/
def SameWord (vm : Vm) : Prop :=
  Untranslated vm.cpu ∨ ∃ level addr, LeafAt vm level addr ∧
    let marked := markAt vm.bus addr .fetch
    let physicalPc := physical (vmBusRead64 vm.bus addr) vm.cpu.pc level
    vmBusRead32 marked vm.cpu.pc = vmBusRead32 vm.bus vm.cpu.pc ∧
      (physicalPc = vm.cpu.pc ∨ vmBusRead32 marked vm.cpu.pc = vmBusRead32 marked physicalPc)

theorem fetch_untranslated {vm : Vm} (h : Untranslated vm.cpu) {word : BitVec 32}
    (hfetch : (cpuFetch vm).2 = some word) : (cpuFetch vm).1 = vm ∧ word = wordAtPc vm := by
  have ht : translateAddress vm.cpu vm.bus vm.cpu.pc .fetch = (vm.bus, .ok vm.cpu.pc) := if_pos h
  unfold cpuFetch at hfetch ⊢
  rw [ht] at hfetch ⊢
  exact ⟨rfl, (Option.some.inj hfetch).symm⟩

/-- What is fetched through a leaf is read after it has been marked. -/
theorem fetch_mapped {vm : Vm} (hno : ¬ Untranslated vm.cpu) {word : BitVec 32}
    (h : (cpuFetch vm).2 = some word) : ∃ level addr, LeafAt vm level addr ∧
      (cpuFetch vm).1 = { vm with bus := markAt vm.bus addr .fetch } ∧
      word = vmBusRead32 (markAt vm.bus addr .fetch)
        (physical (vmBusRead64 vm.bus addr) vm.cpu.pc level) := by
  unfold cpuFetch at h ⊢
  rcases translate_cases vm.cpu vm.bus vm.cpu.pc .fetch with ⟨hoff, _⟩ | ⟨_, _, _, he⟩ |
    ⟨_, _, _, he⟩
  · exact absurd hoff hno
  · rcases ht : translateAddress vm.cpu vm.bus vm.cpu.pc .fetch with ⟨bus, e | p⟩
    · rw [ht] at h
      cases h
    · rw [ht] at h
      obtain ⟨level, addr, hwalk, _, _, hp, hset⟩ := sv39_loop_word (he.symm.trans ht)
      have hbus : bus = markAt vm.bus addr .fetch := hset.written
      refine ⟨level, addr, hwalk, congrArg (fun bus => { vm with bus := bus }) hbus, ?_⟩
      rw [← hbus, ← hp]
      exact (Option.some.inj h).symm
  · rw [he] at h
    cases h

/-- The commands of the debugger show what the next step executes exactly where
the pc, taken as a physical address, names the same word. -/
theorem shown_word_iff {vm : Vm} {word : BitVec 32} (h : (cpuFetch vm).2 = some word) :
    Shows vm word ↔ SameWord vm := by
  rw [shows_iff]
  by_cases hoff : Untranslated vm.cpu
  · obtain ⟨hsame, rfl⟩ := fetch_untranslated hoff h
    rw [hsame]
    exact iff_of_true ⟨rfl, rfl⟩ (Or.inl hoff)
  obtain ⟨level, addr, hwalk, hafter, rfl⟩ := fetch_mapped hoff h
  rw [hafter]
  constructor
  · rintro ⟨hbefore, hword⟩
    exact Or.inr ⟨level, addr, hwalk, hword.trans hbefore.symm, Or.inr hword⟩
  · rintro (hno | ⟨level', addr', hwalk', hkept, hsame⟩)
    · exact absurd hno hoff
    · obtain ⟨rfl, rfl⟩ := hwalk'.unique hwalk
      have hword : vmBusRead32 (markAt vm.bus addr' .fetch) vm.cpu.pc =
          vmBusRead32 (markAt vm.bus addr' .fetch)
            (physical (vmBusRead64 vm.bus addr') vm.cpu.pc level') := by
        rcases hsame with hp | hcontent
        · rw [hp]
        · exact hcontent
      exact ⟨hkept.symm.trans hword, hword⟩

/-- Code in memory that an accessed entry maps to itself is shown. -/
theorem identity_same_word {vm : Vm} {level : Nat} {addr : BitVec 64} (h : LeafAt vm level addr)
    (hself : physical (vmBusRead64 vm.bus addr) vm.cpu.pc level = vm.cpu.pc)
    (haccessed : mark .fetch (vmBusRead64 vm.bus addr) = vmBusRead64 vm.bus addr) :
    SameWord vm := by
  refine Or.inr ⟨level, addr, h, ?_, Or.inl hself⟩
  have hsame : markAt vm.bus addr .fetch = vm.bus := by
    have hwrite : markAt vm.bus addr .fetch = vmBusWrite64 vm.bus addr (vmBusRead64 vm.bus addr) :=
      congrArg (vmBusWrite64 vm.bus addr) haccessed
    rw [hwrite]
    exact leaf_write_same (walk_addr_aligned h ⟨_, rfl⟩) (walk_leaf h).2
  exact congrArg (vmBusRead32 · vm.cpu.pc) hsame

/-- A program that turns Sv39 on, with a gigapage that maps RAM to itself, and
starts over in U. -/
def identityProgram : Memory :=
  ramOf [(0, 0x0202B30300000297), (8, 0x3000107318031073), (16, 0x3020007334129073),
    (32, 0x8000000000080001), (0x1010, 0x200000DF)]

/-- Its first instruction is shown again when the pc is translated. -/
theorem identity_word_shown :
    ¬ Untranslated (quietly 6 (vmInit identityProgram)).cpu ∧
      Shows (quietly 6 (vmInit identityProgram)) 0x00000297 := by
  have hentry : vmBusRead64 (quietly 6 (vmInit identityProgram)).bus 0x80001010 = 0x200000DF := by
    decide +kernel
  have haddr : pteAddr (pageAddr (rootOf (quietly 6 (vmInit identityProgram)).cpu))
      (quietly 6 (vmInit identityProgram)).cpu.pc 2 = 0x80001010 := by decide +kernel
  have hleaf : LeafAt (quietly 6 (vmInit identityProgram)) 2 0x80001010 := by
    rw [LeafAt, ← haddr]
    refine .leaf 2 _ ?_ ?_
    · rw [haddr, hentry]
      exact ⟨by decide, by decide, by decide⟩
    · rw [haddr, hentry]
      exact Or.inl (by decide)
  have hsame := identity_same_word hleaf (by decide +kernel) (by decide +kernel)
  have hfetch : (cpuFetch (quietly 6 (vmInit identityProgram))).2 = some 0x00000297 := by
    decide +kernel
  have hpaged : satpMode (quietly 6 (vmInit identityProgram)).cpu ≠ 0 ∧
      effectivePriviledge (quietly 6 (vmInit identityProgram)).cpu .fetch ≠ mMode := by
    decide +kernel
  exact ⟨not_or.mpr hpaged, (shown_word_iff hfetch).mpr hsame⟩

/-- A program that turns Sv39 on, with a gigapage for 0 that is RAM, and returns to
U at 0. -/
def mappedProgram : Memory :=
  ramOf [(0, 0x0182B30300000297), (8, 0x3000107318031073), (16, 0x30200073),
    (24, 0x8000000000080001), (0x1000, 0x200000DF)]

/-- The machine goes on with the first word of RAM, and the debugger shows the
zero that it reads at 0. -/
theorem virtual_pc_misread :
    Reachable (quietly 5 (vmInit mappedProgram)) ∧
      (cpuFetch (quietly 5 (vmInit mappedProgram))).2 = some 0x00000297 ∧
      (stepWords 1 (quietly 5 (vmInit mappedProgram)))[0]? = some 0 ∧
      ¬ ∀ vm word, (cpuFetch vm).2 = some word → Shows vm word := by
  have hfetch : (cpuFetch (quietly 5 (vmInit mappedProgram))).2 = some 0x00000297 := by
    decide +kernel
  have hshown : (stepWords 1 (quietly 5 (vmInit mappedProgram)))[0]? = some 0 := by
    decide +kernel
  refine ⟨quietly_reachable 5 (.init _), hfetch, hshown, fun hall => ?_⟩
  have hword := (hall _ _ hfetch).step (quietly 5 (vmInit mappedProgram)) 0 1 Nat.one_pos rfl
  cases hshown.symm.trans hword

end RiscvVm.Proofs
