import RiscvVm.Access

namespace RiscvVm.Proofs

/-- The `n` bytes from `p` all lie in RAM. -/
def InRam (p : BitVec 64) (n : Nat) : Prop :=
  memBase.toNat ≤ p.toNat ∧ p.toNat + n ≤ memBase.toNat + memSize.toNat

instance (p : BitVec 64) (n : Nat) : Decidable (InRam p n) :=
  inferInstanceAs (Decidable (_ ∧ _))

theorem ram_range_iff (p : BitVec 64) : addrInRange p ramBase ramSize = true ↔ InRam p 1 := by
  have hb : ramBase.toNat = 2147483648 := rfl
  have hs : ramSize.toNat = 67108864 := rfl
  have hmb : memBase.toNat = 2147483648 := rfl
  have hms : memSize.toNat = 67108864 := rfl
  have hp := p.isLt
  unfold addrInRange InRam
  rw [Bool.and_eq_true, decide_eq_true_iff, decide_eq_true_iff, ge_iff_le, BitVec.le_def,
    BitVec.lt_def, BitVec.toNat_sub]
  omega

theorem valid_access_iff (p : BitVec 64) {n : Nat} (hn : 0 < n) (h8 : n ≤ 8) :
    validAccess p (BitVec.ofNat 64 n) = true ↔ InRam p n := by
  have hmb : memBase.toNat = 2147483648 := rfl
  have hms : memSize.toNat = 67108864 := rfl
  have hp := p.isLt
  have hsize : (memSize - BitVec.ofNat 64 n).toNat = 67108864 - n := by
    rw [BitVec.toNat_sub, BitVec.toNat_ofNat, hms]
    omega
  unfold validAccess InRam
  split
  · rename_i h
    rw [BitVec.lt_def] at h
    constructor
    · intro hf
      cases hf
    · omega
  · rename_i h
    rw [BitVec.lt_def] at h
    rw [decide_eq_true_iff, BitVec.le_def, hsize, BitVec.toNat_sub]
    omega

theorem InRam.mono {p : BitVec 64} {n k : Nat} (h : InRam p n) (hk : k ≤ n) : InRam p k :=
  ⟨h.1, by have := h.2; omega⟩

/-- RAM starts and ends on word boundaries. -/
theorem InRam.of_aligned {p : BitVec 64} {n : Nat} (h : InRam p 1) (hn : n = 4 ∨ n = 8)
    (ha : p.toNat % n = 0) : InRam p n := by
  have hb : memBase.toNat = 2147483648 := rfl
  have hs : memSize.toNat = 67108864 := rfl
  unfold InRam at *
  rcases hn with rfl | rfl <;> omega

theorem Width.bytes_pos (width : Width) : 0 < width.bytes := by cases width <;> decide

theorem Width.bytes_le (width : Width) : width.bytes ≤ 8 := by cases width <;> decide

theorem mem_read_in_ram {w n : Nat} (mem : Memory) {p : BitVec 64} (hn : 0 < n) (h8 : n ≤ 8)
    (h : InRam p n) : memReadN w n mem p = ByteMap.read w mem.mem (p - memBase) n := by
  rw [memReadN, if_pos ((valid_access_iff p hn h8).mpr h)]
  rfl

theorem mem_read_outside {w n : Nat} (mem : Memory) {p : BitVec 64} (hn : 0 < n) (h8 : n ≤ 8)
    (h : ¬ InRam p n) : memReadN w n mem p = 0 := by
  rw [memReadN, if_neg fun hv => h ((valid_access_iff p hn h8).mp hv)]

theorem mem_write_in_ram {w n : Nat} (mem : Memory) {p : BitVec 64} (v : BitVec w) (hn : 0 < n)
    (h8 : n ≤ 8) (h : InRam p n) :
    memWriteN n mem p v = { mem := ByteMap.write mem.mem (p - memBase) v n } := by
  rw [memWriteN, if_pos ((valid_access_iff p hn h8).mpr h)]
  rfl

theorem mem_write_outside {w n : Nat} (mem : Memory) {p : BitVec 64} (v : BitVec w) (hn : 0 < n)
    (h8 : n ≤ 8) (h : ¬ InRam p n) : memWriteN n mem p v = mem := by
  rw [memWriteN, if_neg fun hv => h ((valid_access_iff p hn h8).mp hv)]

/-- A read of bytes in RAM is their little-endian value and changes nothing. -/
theorem bus_read_in_ram (width : Width) (bus : Bus) {p : BitVec 64} (h : InRam p width.bytes) :
    vmBusRead width bus p =
      (bus, ByteMap.read 64 bus.ram.mem (p - memBase) width.bytes) := by
  have hr := (ram_range_iff p).mpr (h.mono (Width.bytes_pos width))
  cases width with
  | w8 =>
    simp only [vmBusRead, vmBusRead8, hr, if_true, memRead8]
    rw [mem_read_in_ram (n := 1) bus.ram (by omega) (by omega) h, ByteMap.read_set_width _ _ (by omega)]
    rfl
  | w16 =>
    simp only [vmBusRead, vmBusRead16, hr, if_true, memRead16]
    rw [mem_read_in_ram (n := 2) bus.ram (by omega) (by omega) h, ByteMap.read_set_width _ _ (by omega)]
    rfl
  | w32 =>
    simp only [vmBusRead, vmBusRead32, hr, if_true, memRead32]
    rw [mem_read_in_ram (n := 4) bus.ram (by omega) (by omega) h, ByteMap.read_set_width _ _ (by omega)]
    rfl
  | w64 =>
    simp only [vmBusRead, vmBusRead64, hr, if_true, memRead64]
    rw [mem_read_in_ram (n := 8) bus.ram (by omega) (by omega) h]
    rfl

/-- A write to bytes in RAM sets those bytes and nothing else. -/
theorem bus_write_in_ram (width : Width) (bus : Bus) {p : BitVec 64} (v : BitVec 64)
    (h : InRam p width.bytes) :
    vmBusWrite width bus p v =
      { bus with ram := { mem := ByteMap.write bus.ram.mem (p - memBase) v width.bytes } } := by
  have hr := (ram_range_iff p).mpr (h.mono (Width.bytes_pos width))
  cases width with
  | w8 =>
    simp only [vmBusWrite, vmBusWrite8, hr, if_true, memWrite8]
    rw [mem_write_in_ram (n := 1) bus.ram _ (by omega) (by omega) h,
      ByteMap.write_set_width _ _ _ (by omega) (by omega)]
    rfl
  | w16 =>
    simp only [vmBusWrite, vmBusWrite16, hr, if_true, memWrite16]
    rw [mem_write_in_ram (n := 2) bus.ram _ (by omega) (by omega) h,
      ByteMap.write_set_width _ _ _ (by omega) (by omega)]
    rfl
  | w32 =>
    simp only [vmBusWrite, vmBusWrite32, hr, if_true, memWrite32]
    rw [mem_write_in_ram (n := 4) bus.ram _ (by omega) (by omega) h,
      ByteMap.write_set_width _ _ _ (by omega) (by omega)]
    rfl
  | w64 =>
    simp only [vmBusWrite, vmBusWrite64, hr, if_true, memWrite64]
    rw [mem_write_in_ram (n := 8) bus.ram _ (by omega) (by omega) h]
    rfl

/-- A write whose bytes do not all lie in RAM leaves RAM alone. -/
theorem bus_write_outside (width : Width) (bus : Bus) {p : BitVec 64} (v : BitVec 64)
    (h : ¬ InRam p width.bytes) : (vmBusWrite width bus p v).ram = bus.ram := by
  cases width with
  | w8 =>
    simp only [vmBusWrite, vmBusWrite8, memWrite8]
    rw [mem_write_outside (n := 1) bus.ram _ (by omega) (by omega) h]
    split
    · rfl
    · split <;> rfl
  | w16 =>
    simp only [vmBusWrite, vmBusWrite16, memWrite16]
    rw [mem_write_outside (n := 2) bus.ram _ (by omega) (by omega) h]
    split <;> rfl
  | w32 =>
    simp only [vmBusWrite, vmBusWrite32, memWrite32]
    rw [mem_write_outside (n := 4) bus.ram _ (by omega) (by omega) h]
    split
    · rfl
    · split
      · rfl
      · split <;> rfl
  | w64 =>
    simp only [vmBusWrite, vmBusWrite64, memWrite64]
    rw [mem_write_outside (n := 8) bus.ram _ (by omega) (by omega) h]
    split
    · rfl
    · split
      · rfl
      · split <;> rfl

/-- A read whose bytes do not all lie in RAM does not look at RAM. -/
theorem bus_read_outside (width : Width) (bus : Bus) (ram : Memory) {p : BitVec 64}
    (h : ¬ InRam p width.bytes) :
    (vmBusRead width { bus with ram := ram } p).2 = (vmBusRead width bus p).2 := by
  cases width with
  | w8 =>
    simp only [vmBusRead, vmBusRead8, memRead8]
    rw [mem_read_outside (n := 1) ram (by omega) (by omega) h,
      mem_read_outside (n := 1) bus.ram (by omega) (by omega) h]
    split
    · rfl
    · split <;> rfl
  | w16 =>
    simp only [vmBusRead, vmBusRead16, memRead16]
    rw [mem_read_outside (n := 2) ram (by omega) (by omega) h,
      mem_read_outside (n := 2) bus.ram (by omega) (by omega) h]
  | w32 =>
    simp only [vmBusRead, vmBusRead32, memRead32]
    rw [mem_read_outside (n := 4) ram (by omega) (by omega) h,
      mem_read_outside (n := 4) bus.ram (by omega) (by omega) h]
  | w64 =>
    simp only [vmBusRead, vmBusRead64, memRead64]
    rw [mem_read_outside (n := 8) ram (by omega) (by omega) h,
      mem_read_outside (n := 8) bus.ram (by omega) (by omega) h]

theorem bus_read64_in_ram (bus : Bus) {addr : BitVec 64} (h : InRam addr 8) :
    vmBusRead64 bus addr = ByteMap.read 64 bus.ram.mem (addr - memBase) 8 :=
  congrArg Prod.snd (bus_read_in_ram .w64 bus h)

theorem bus_write64_in_ram (bus : Bus) {addr : BitVec 64} (v : BitVec 64) (h : InRam addr 8) :
    vmBusWrite64 bus addr v =
      { bus with ram := { mem := ByteMap.write bus.ram.mem (addr - memBase) v 8 } } :=
  bus_write_in_ram .w64 bus v h

theorem timer_addr {addr o : BitVec 64} (h : addr - timerBase = o) : addr = timerBase + o := by
  rw [← h, BitVec.add_comm, BitVec.sub_add_cancel]

theorem offset_ne {addr o : BitVec 64} (h : addr ≠ timerBase + o) : addr - timerBase ≠ o :=
  fun he => h (timer_addr he)

theorem mtimecmp_write64 (bus : Bus) (v : BitVec 64) :
    vmBusWrite64 bus (timerBase + timerMtimecmp) v =
      { bus with timer := { bus.timer with mtimecmp := v } } := rfl

theorem mtime_write64 (bus : Bus) (v : BitVec 64) :
    vmBusWrite64 bus (timerBase + timerMtime) v =
      { bus with timer := { bus.timer with mtime := v } } := rfl

theorem mtimecmp_read64 (bus : Bus) :
    vmBusRead64 bus (timerBase + timerMtimecmp) = bus.timer.mtimecmp := rfl

theorem mtime_read64 (bus : Bus) :
    vmBusRead64 bus (timerBase + timerMtime) = bus.timer.mtime := rfl

/-- RAM with these words at these offsets and zeros elsewhere. -/
def ramOf (words : List (BitVec 64 × BitVec 64)) : Memory :=
  { mem := words.foldl (fun m word => ByteMap.write m word.1 word.2 8) fun _ => 0 }

/-- A bus with this RAM and its devices at reset. -/
def busOf (ram : Memory) : Bus :=
  { ram := ram, timer := timerReset, uart := uartInit, transmitted := [] }

end RiscvVm.Proofs
