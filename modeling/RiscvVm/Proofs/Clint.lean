import RiscvVm.Proofs.Bus
import RiscvVm.Lib.Past

namespace RiscvVm.Proofs

inductive TimerReg
  | msip
  | mtimecmp
  | mtime
deriving DecidableEq

def TimerReg.addr : TimerReg → BitVec 64
  | .msip => timerBase + timerMsip
  | .mtimecmp => timerBase + timerMtimecmp
  | .mtime => timerBase + timerMtime

def TimerReg.get : TimerReg → Timer → BitVec 64
  | .msip, timer => timer.msip.setWidth 64
  | .mtimecmp, timer => timer.mtimecmp
  | .mtime, timer => timer.mtime

/-- A 32-bit write sets `msip` or nothing. -/
theorem bus_write32_timer (bus : Bus) (addr : BitVec 64) (v : BitVec 32) :
    (vmBusWrite32 bus addr v).timer =
      if addr = TimerReg.msip.addr then { bus.timer with msip := v &&& 0x1 } else bus.timer := by
  split
  · rename_i h
    rw [h]
    rfl
  · rename_i h
    have hoff : addr - timerBase ≠ timerMsip := offset_ne h
    unfold vmBusWrite32 timerWrite32
    rw [if_neg hoff]
    repeat' split
    all_goals rfl

/-- A 64-bit write sets the register at its address; one to `msip` sets
`mtimecmp`, too. -/
theorem bus_write64_timer (bus : Bus) (addr v : BitVec 64) :
    (vmBusWrite64 bus addr v).timer =
      if addr = TimerReg.msip.addr then
        { bus.timer with msip := v.setWidth 32 &&& 0x1, mtimecmp := v }
      else if addr = TimerReg.mtimecmp.addr then { bus.timer with mtimecmp := v }
      else if addr = TimerReg.mtime.addr then { bus.timer with mtime := v }
      else bus.timer := by
  split
  · rename_i h
    rw [h]
    rfl
  rename_i hmsip
  split
  · rename_i h
    rw [h]
    rfl
  rename_i hcmp
  split
  · rename_i h
    rw [h]
    rfl
  rename_i htime
  have hmsip' : addr - timerBase ≠ timerMsip := offset_ne hmsip
  have hcmp' : addr - timerBase ≠ timerMtimecmp := offset_ne hcmp
  have htime' : addr - timerBase ≠ timerMtime := offset_ne htime
  unfold vmBusWrite64 timerWrite64
  rw [if_neg hmsip', if_neg hcmp', if_neg htime']
  repeat' split
  all_goals rfl

theorem bus_write8_timer (bus : Bus) (addr : BitVec 64) (v : BitVec 8) :
    (vmBusWrite8 bus addr v).timer = bus.timer := by
  unfold vmBusWrite8
  repeat' split
  all_goals rfl

theorem bus_write16_timer (bus : Bus) (addr : BitVec 64) (v : BitVec 16) :
    (vmBusWrite16 bus addr v).timer = bus.timer := by
  unfold vmBusWrite16
  split
  all_goals rfl

/-- The word at the start or in the middle of a register. -/
def halfAddr (reg : TimerReg) (high : Bool) : BitVec 64 :=
  if high then reg.addr + 4 else reg.addr

def halfOf (v : BitVec 64) (high : Bool) : BitVec 32 :=
  if high then (v >>> 32).setWidth 32 else v.setWidth 32

theorem halves_join (v : BitVec 64) :
    (halfOf v false).setWidth 64 ||| (halfOf v true).setWidth 64 <<< 32 = v := by
  apply BitVec.eq_of_getLsbD_eq
  intro i hi
  simp only [halfOf, if_true, Bool.false_eq_true, if_false, BitVec.getLsbD_or,
    BitVec.getLsbD_shiftLeft, BitVec.getLsbD_setWidth, BitVec.getLsbD_ushiftRight]
  grind

section
variable {reg : TimerReg} (hwide : reg ≠ .msip)
include hwide

theorem wide_read (bus : Bus) : vmBusRead64 bus reg.addr = reg.get bus.timer := by
  cases reg with
  | msip => exact absurd rfl hwide
  | mtimecmp => rfl
  | mtime => rfl

theorem half_read (bus : Bus) (high : Bool) :
    vmBusRead32 bus (halfAddr reg high) = halfOf (reg.get bus.timer) high := by
  cases reg with
  | msip => exact absurd rfl hwide
  | mtimecmp => cases high <;> rfl
  | mtime => cases high <;> rfl

theorem half_write (bus : Bus) (high : Bool) (v : BitVec 32) :
    (vmBusWrite32 bus (halfAddr reg high) v).timer = bus.timer := by
  cases reg with
  | msip => exact absurd rfl hwide
  | mtimecmp => cases high <;> rfl
  | mtime => cases high <;> rfl

theorem wide_write (bus : Bus) (v : BitVec 64) :
    (vmBusWrite64 bus reg.addr v).timer = bus.timer ↔ reg.get bus.timer = v := by
  cases reg with
  | msip => exact absurd rfl hwide
  | mtimecmp =>
    constructor
    · intro h
      exact (congrArg Timer.mtimecmp h).symm
    · rintro rfl
      rfl
  | mtime =>
    constructor
    · intro h
      exact (congrArg Timer.mtime h).symm
    · rintro rfl
      rfl

end

/-- A write of one or two words to the bus. -/
inductive WordWrite
  | word (addr : BitVec 64) (value : BitVec 32)
  | double (addr value : BitVec 64)

def WordWrite.apply (bus : Bus) : WordWrite → Bus
  | .word addr value => vmBusWrite32 bus addr value
  | .double addr value => vmBusWrite64 bus addr value

/-- What the write puts into one half of the register. -/
def WordWrite.toHalf (reg : TimerReg) (high : Bool) : WordWrite → Option (BitVec 32)
  | .word addr value => if addr = halfAddr reg high then some value else none
  | .double addr value => if addr = reg.addr then some (halfOf value high) else none

/-- A word written to half a register is the word that is there already, and so
is what falls through from `msip` to `mtimecmp`. -/
def WordWrite.Repeats (bus : Bus) : WordWrite → Prop
  | .word addr value =>
    ∀ reg high, reg ≠ TimerReg.msip → addr = halfAddr reg high → vmBusRead32 bus addr = value
  | .double addr value => addr = TimerReg.msip.addr → bus.timer.mtimecmp = value

/-- The value last written to the half, if one was. -/
def lastWritten (reg : TimerReg) (high : Bool) (writes : List WordWrite) : Option (BitVec 32) :=
  writes.reverse.findSome? (WordWrite.toHalf reg high)

theorem word_get (bus : Bus) (addr : BitVec 64) (value : BitVec 32) {reg : TimerReg}
    (hwide : reg ≠ .msip) :
    reg.get (vmBusWrite32 bus addr value).timer = reg.get bus.timer := by
  rw [bus_write32_timer]
  split
  · cases reg with
    | msip => exact absurd rfl hwide
    | mtimecmp => rfl
    | mtime => rfl
  · rfl

theorem double_get {bus : Bus} {addr value : BitVec 64}
    (h : addr = TimerReg.msip.addr → bus.timer.mtimecmp = value) {reg : TimerReg}
    (hwide : reg ≠ .msip) :
    reg.get (vmBusWrite64 bus addr value).timer =
      if addr = reg.addr then value else reg.get bus.timer := by
  rw [bus_write64_timer]
  cases reg with
  | msip => exact absurd rfl hwide
  | mtimecmp =>
    split
    · rename_i hmsip
      rw [if_neg (by rw [hmsip]; decide)]
      exact (h hmsip).symm
    split
    · rfl
    split
    · rfl
    · rfl
  | mtime =>
    split
    · rename_i hmsip
      rw [if_neg (by rw [hmsip]; decide)]
      rfl
    split
    · rename_i hcmp
      rw [if_neg (by rw [hcmp]; decide)]
      rfl
    split
    · rfl
    · rfl

theorem write_half {bus : Bus} {write : WordWrite} (h : write.Repeats bus) {reg : TimerReg}
    (hwide : reg ≠ .msip) (high : Bool) :
    vmBusRead32 (write.apply bus) (halfAddr reg high) =
      (write.toHalf reg high).getD (vmBusRead32 bus (halfAddr reg high)) := by
  rw [half_read hwide, half_read hwide]
  cases write with
  | word addr value =>
    rw [WordWrite.apply, word_get bus addr value hwide, WordWrite.toHalf]
    split
    · rename_i ha
      rw [← half_read hwide, ← ha]
      exact h reg high hwide ha
    · rfl
  | double addr value =>
    rw [WordWrite.apply, double_get h hwide, WordWrite.toHalf]
    split
    · rfl
    · rfl

theorem run_half {bus : Bus} {writes : List WordWrite}
    (h : Past.Along WordWrite.apply WordWrite.Repeats bus writes) {reg : TimerReg}
    (hwide : reg ≠ .msip) (high : Bool) :
    vmBusRead32 (writes.foldl WordWrite.apply bus) (halfAddr reg high) =
      (lastWritten reg high writes).getD (vmBusRead32 bus (halfAddr reg high)) := by
  induction writes generalizing bus with
  | nil => rfl
  | cons write writes ih =>
    obtain ⟨hfirst, hrest⟩ := h
    rw [List.foldl_cons, ih hrest, write_half hfirst hwide, lastWritten, lastWritten,
      List.reverse_cons, List.findSome?_append]
    cases writes.reverse.findSome? (WordWrite.toHalf reg high) with
    | none => simp
    | some value => rfl

/-- Of the two 64-bit registers, read as one or as two words. Two 32-bit writes
amount to the 64-bit write only if the value is there already, and a half reads
back what is written to it only then; otherwise they are lost. The reads always
agree, and as long as no write is lost a half reads as last written. -/
theorem timer_widths_agree (bus : Bus) {reg : TimerReg} (hwide : reg ≠ .msip) :
    (∀ v, ((vmBusWrite32 (vmBusWrite32 bus reg.addr (halfOf v false)) (reg.addr + 4)
        (halfOf v true)).timer = (vmBusWrite64 bus reg.addr v).timer ↔
          vmBusRead64 bus reg.addr = v) ∧
      ((vmBusWrite32 (vmBusWrite32 bus (reg.addr + 4) (halfOf v true)) reg.addr
        (halfOf v false)).timer = (vmBusWrite64 bus reg.addr v).timer ↔
          vmBusRead64 bus reg.addr = v)) ∧
    (∀ high v, vmBusRead32 (vmBusWrite32 bus (halfAddr reg high) v) (halfAddr reg high) = v ↔
      vmBusRead32 bus (halfAddr reg high) = v) ∧
    ∀ writes : List WordWrite,
      vmBusRead64 (writes.foldl WordWrite.apply bus) reg.addr =
        (vmBusRead32 (writes.foldl WordWrite.apply bus) reg.addr).setWidth 64 |||
          (vmBusRead32 (writes.foldl WordWrite.apply bus) (reg.addr + 4)).setWidth 64 <<< 32 ∧
      (Past.Along WordWrite.apply WordWrite.Repeats bus writes →
        ∀ high v, lastWritten reg high writes = some v →
          vmBusRead32 (writes.foldl WordWrite.apply bus) (halfAddr reg high) = v) := by
  refine ⟨fun v => ⟨?_, ?_⟩, fun high v => ?_, fun writes => ⟨?_, fun h high v hlast => ?_⟩⟩
  · have hlow := half_write hwide bus false (halfOf v false)
    have hhigh := half_write hwide (vmBusWrite32 bus reg.addr (halfOf v false)) true (halfOf v true)
    rw [wide_read hwide, ← wide_write hwide, eq_comm]
    exact Eq.congr_right (hhigh.trans hlow)
  · have hhigh := half_write hwide bus true (halfOf v true)
    have hlow := half_write hwide (vmBusWrite32 bus (reg.addr + 4) (halfOf v true)) false
      (halfOf v false)
    rw [wide_read hwide, ← wide_write hwide, eq_comm]
    exact Eq.congr_right (hlow.trans hhigh)
  · rw [half_read hwide, half_write hwide, ← half_read hwide]
  · have hlow := half_read hwide (writes.foldl WordWrite.apply bus) false
    have hhigh := half_read hwide (writes.foldl WordWrite.apply bus) true
    rw [wide_read hwide, ← halves_join (reg.get _), ← hlow, ← hhigh]
    rfl
  · rw [run_half h hwide, hlast]
    rfl

theorem mtimecmp_reads_low_half :
    vmBusRead32 (vmBusWrite32 (vmBusWrite64 (busOf (ramOf [])) TimerReg.mtimecmp.addr 0x100000007)
      TimerReg.mtimecmp.addr 7) TimerReg.mtimecmp.addr = 7 := by
  have hruns : Past.Along WordWrite.apply WordWrite.Repeats (busOf (ramOf []))
      [.double TimerReg.mtimecmp.addr 0x100000007, .word TimerReg.mtimecmp.addr 7] := by
    refine ⟨fun h => ?_, fun reg high hreg ha => ?_, trivial⟩
    · exact absurd h (by decide)
    · rfl
  exact ((@timer_widths_agree (busOf (ramOf [])) .mtimecmp (by decide)).2.2 _).2 hruns
    false 7 rfl

/-- Set to 5 by halves, `mtimecmp` is still what it was at reset. -/
theorem mtimecmp_halves_lost :
    (vmBusWrite32 (vmBusWrite32 (busOf (ramOf [])) TimerReg.mtimecmp.addr 5)
        (TimerReg.mtimecmp.addr + 4) 0).timer ≠
      (vmBusWrite64 (busOf (ramOf [])) TimerReg.mtimecmp.addr 5).timer ∧
    vmBusRead32 (vmBusWrite32 (busOf (ramOf [])) TimerReg.mtimecmp.addr 5)
      TimerReg.mtimecmp.addr ≠ 5 := by
  decide

/-- What happens to the timer: the guest's accesses to the bus, and time. -/
inductive TimerEvent
  | read (width : Width) (addr : BitVec 64)
  | write (width : Width) (addr value : BitVec 64)
  | tick

def TimerEvent.apply (bus : Bus) : TimerEvent → Bus
  | .read width addr => (vmBusRead width bus addr).1
  | .write width addr value => vmBusWrite width bus addr value
  | .tick => { bus with timer := timerTick bus.timer }

/-- The addresses of a register: `msip` is one word, the others are two. -/
def TimerReg.at (reg : TimerReg) (addr : BitVec 64) : Bool :=
  addr = reg.addr ∨ (reg ≠ .msip ∧ addr = reg.addr + 4)

def TimerEvent.concerns (reg : TimerReg) : TimerEvent → Bool
  | .read _ _ => false
  | .write _ addr _ => reg.at addr
  | .tick => reg = .mtime

/-- No 64-bit write to `msip`, but for the value that `mtimecmp` has. -/
def TimerEvent.Separate (bus : Bus) : TimerEvent → Prop
  | .write width addr value =>
    ¬ (width = .w64 ∧ addr = TimerReg.msip.addr ∧ value ≠ bus.timer.mtimecmp)
  | _ => True

/-- The register after the event, from the register alone. -/
def TimerReg.next (reg : TimerReg) (x : BitVec 64) : TimerEvent → BitVec 64
  | .read _ _ => x
  | .tick => if reg = .mtime then x + 1 else x
  | .write width addr value =>
    if addr ≠ reg.addr then x
    else
      match reg, width with
      | .msip, .w32 => value &&& 0x1
      | .msip, .w64 => value &&& 0x1
      | .mtimecmp, .w64 => value
      | .mtime, .w64 => value
      | _, _ => x

theorem next_of_other {reg : TimerReg} {event : TimerEvent} (h : event.concerns reg = false)
    (x : BitVec 64) : reg.next x event = x := by
  cases event with
  | read width addr => rfl
  | tick => exact if_neg (of_decide_eq_false h)
  | write width addr value =>
    have hne : addr ≠ reg.addr := fun he => of_decide_eq_false h (Or.inl he)
    exact if_pos hne

theorem bus_read_timer (width : Width) (bus : Bus) (addr : BitVec 64) :
    (vmBusRead width bus addr).1.timer = bus.timer := by
  cases width with
  | w8 =>
    simp only [vmBusRead, vmBusRead8]
    repeat' split
    all_goals rfl
  | w16 => rfl
  | w32 => rfl
  | w64 => rfl

theorem low_bit_widths (v : BitVec 64) : (v.setWidth 32 &&& 0x1#32).setWidth 64 = v &&& 0x1 := by
  have h1 : (1 : BitVec 64).toNat = 1 := rfl
  apply BitVec.eq_of_toNat_eq
  rw [BitVec.toNat_setWidth, BitVec.toNat_and, BitVec.toNat_and, BitVec.toNat_setWidth, h1,
    BitVec.toNat_ofNat, Nat.one_mod_two_pow (by omega), Nat.and_one_is_mod, Nat.and_one_is_mod]
  omega

theorem write_get {bus : Bus} {width : Width} {addr value : BitVec 64}
    (h : (TimerEvent.write width addr value).Separate bus) (reg : TimerReg) :
    reg.get (vmBusWrite width bus addr value).timer =
      reg.next (reg.get bus.timer) (.write width addr value) := by
  have hother : addr ≠ reg.addr →
      reg.next (reg.get bus.timer) (.write width addr value) = reg.get bus.timer :=
    fun hne => if_pos hne
  cases width with
  | w8 =>
    rw [vmBusWrite, bus_write8_timer]
    cases reg <;> exact (ite_self _).symm
  | w16 =>
    rw [vmBusWrite, bus_write16_timer]
    cases reg <;> exact (ite_self _).symm
  | w32 =>
    cases reg with
    | msip =>
      rw [vmBusWrite, bus_write32_timer]
      by_cases ha : addr = TimerReg.msip.addr
      · rw [if_pos ha]
        exact (low_bit_widths value).trans (if_neg (not_not_intro ha)).symm
      · rw [if_neg ha, hother ha]
    | mtimecmp => exact (word_get bus addr _ (by decide)).trans (ite_self _).symm
    | mtime => exact (word_get bus addr _ (by decide)).trans (ite_self _).symm
  | w64 =>
    have hkept : addr = TimerReg.msip.addr → bus.timer.mtimecmp = value :=
      fun ha => Classical.not_not.mp fun hne => h ⟨rfl, ha, fun he => hne he.symm⟩
    cases reg with
    | msip =>
      rw [vmBusWrite, bus_write64_timer]
      by_cases ha : addr = TimerReg.msip.addr
      · rw [if_pos ha]
        exact (low_bit_widths value).trans (if_neg (not_not_intro ha)).symm
      · rw [if_neg ha, hother ha]
        repeat' split
        all_goals rfl
    | mtimecmp => exact (double_get hkept (by decide)).trans (ite_not _ _ _).symm
    | mtime => exact (double_get hkept (by decide)).trans (ite_not _ _ _).symm

theorem event_get {bus : Bus} {event : TimerEvent} (h : event.Separate bus) (reg : TimerReg) :
    reg.get (event.apply bus).timer = reg.next (reg.get bus.timer) event := by
  cases event with
  | read width addr => exact congrArg reg.get (bus_read_timer width bus addr)
  | write width addr value => exact write_get h reg
  | tick => cases reg <;> rfl

theorem run_get {bus : Bus} {events : List TimerEvent}
    (h : Past.Along TimerEvent.apply TimerEvent.Separate bus events) (reg : TimerReg) :
    reg.get (events.foldl TimerEvent.apply bus).timer =
      (events.filter (TimerEvent.concerns reg)).foldl reg.next (reg.get bus.timer) := by
  induction events generalizing bus with
  | nil => rfl
  | cons event events ih =>
    obtain ⟨hfirst, hrest⟩ := h
    rw [List.foldl_cons, ih hrest, event_get hfirst]
    cases hc : event.concerns reg with
    | true => rw [List.filter_cons_of_pos hc, List.foldl_cons]
    | false =>
      rw [List.filter_cons_of_neg (Bool.eq_false_iff.mp hc), next_of_other hc]

/-- A write leaves the registers it is not addressed to alone, at any width,
unless it is a 64-bit write to `msip` of another value than `mtimecmp` has. In a
run without such writes each register is what the writes to it, and the ticks
for `mtime`, have made of it. -/
theorem timer_registers_independent (bus : Bus) :
    (∀ width addr value,
      (∀ reg : TimerReg, reg.at addr = false →
        reg.get (vmBusWrite width bus addr value).timer = reg.get bus.timer) ↔
      ¬ (width = .w64 ∧ addr = TimerReg.msip.addr ∧ value ≠ bus.timer.mtimecmp)) ∧
    ∀ events, Past.Along TimerEvent.apply TimerEvent.Separate bus events → ∀ reg : TimerReg,
      reg.get (events.foldl TimerEvent.apply bus).timer =
        (events.filter (TimerEvent.concerns reg)).foldl reg.next (reg.get bus.timer) := by
  refine ⟨fun width addr value => ⟨?_, fun h reg hreg => ?_⟩, fun events h reg => run_get h reg⟩
  · rintro hkept ⟨rfl, rfl, hne⟩
    exact hne (hkept .mtimecmp (by decide))
  · have hother : (TimerEvent.write width addr value).concerns reg = false := hreg
    rw [write_get h reg, next_of_other hother]

/-- A software interrupt by a 32-bit write, with the timer running and set. -/
def softwareInterrupt : List TimerEvent :=
  [.write .w64 TimerReg.mtimecmp.addr 9, .tick, .write .w32 TimerReg.msip.addr 1, .tick]

theorem mtimecmp_survives_msip :
    TimerReg.mtimecmp.get (softwareInterrupt.foldl TimerEvent.apply (busOf (ramOf []))).timer =
      9 := by
  have hsep : Past.Along TimerEvent.apply TimerEvent.Separate (busOf (ramOf []))
      softwareInterrupt := by
    refine ⟨fun h => ?_, trivial, fun h => ?_, trivial, trivial⟩
    · exact absurd h.2.1 (by decide)
    · exact absurd h.1 (by decide)
  exact (timer_registers_independent (busOf (ramOf []))).2 softwareInterrupt hsep .mtimecmp

/-- By a 64-bit write it sets `mtimecmp` to 1 as well. -/
theorem msip_double_moves_mtimecmp :
    TimerReg.mtimecmp.at TimerReg.msip.addr = false ∧
      TimerReg.mtimecmp.get (vmBusWrite .w64 (busOf (ramOf [])) TimerReg.msip.addr 1).timer ≠
        TimerReg.mtimecmp.get (busOf (ramOf [])).timer := by
  decide

end RiscvVm.Proofs
