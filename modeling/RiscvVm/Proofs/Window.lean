import RiscvVm.Proofs.Ram
import RiscvVm.Proofs.Paging
import RiscvVm.Machine

namespace RiscvVm.Proofs

/-- The array behind RAM has the first `n` bytes of the value from `p` on. -/
def BytesAt (ram : Memory) (p : BitVec 64) (n : Nat) (value : BitVec 64) : Prop :=
  ∀ i < n, ram.byteAt (addressToIndex p + BitVec.ofNat 64 i) = some (ByteMap.byte value i)

/-- The value an access of this width stores or loads. -/
def lowBytes (width : Width) (value : BitVec 64) : BitVec 64 :=
  (value.setWidth (8 * width.bytes)).setWidth 64

/-- What is stored all lies in the array. -/
theorem BytesAt.in_ram {ram : Memory} {p : BitVec 64} {n : Nat} {value : BitVec 64}
    (h : BytesAt ram p n value) (hp : InRam p 1) (hn : 0 < n) (h8 : n ≤ 8) : InRam p n := by
  have hlast := h (n - 1) (by omega)
  have hb : memBase.toNat = 2147483648 := rfl
  have hs : memSize.toNat = 67108864 := rfl
  have hlt := p.isLt
  unfold Memory.byteAt at hlast
  split at hlast
  · rename_i hidx
    rw [BitVec.lt_def, addressToIndex, BitVec.toNat_add, BitVec.toNat_sub,
      BitVec.toNat_ofNat] at hidx
    unfold InRam at *
    omega
  · cases hlast

section
variable (width : Width) (bus : Bus) {p : BitVec 64} (h : InRam p width.bytes)
include h

theorem write_bytes_at (value : BitVec 64) :
    BytesAt (vmBusWrite width bus p value).ram p width.bytes value := by
  intro i hi
  rw [bus_write_in_ram width bus value h, byte_at_index _ h hi]
  exact congrArg some (ByteMap.write_inside bus.ram.mem _ value (width_bytes_lt width) hi)

theorem write_reads (value : BitVec 64) :
    (vmBusRead width (vmBusWrite width bus p value) p).2 = lowBytes width value := by
  have hn := width_bytes_lt width
  have hback := ByteMap.read_write bus.ram.mem (p - memBase)
    (value.setWidth (8 * width.bytes)) hn rfl
  rw [ByteMap.write_set_width _ _ _ hn (Nat.le_refl _)] at hback
  rw [bus_write_in_ram width bus value h, bus_read_in_ram width _ h, lowBytes, ← hback,
    ByteMap.read_set_width _ _ (Nat.le_refl _)]

theorem read_bytes_at : BytesAt bus.ram p width.bytes (vmBusRead width bus p).2 := by
  intro i hi
  have h8 := Width.bytes_le width
  rw [bus_read_in_ram width bus h, byte_at_index _ h hi]
  exact congrArg some (ByteMap.byte_read bus.ram.mem _ hi (by omega)).symm

theorem read_low_bytes : lowBytes width (vmBusRead width bus p).2 = (vmBusRead width bus p).2 := by
  have h8 := Width.bytes_le width
  rw [bus_read_in_ram width bus h, lowBytes, ByteMap.read_set_width _ _ (by omega),
    ByteMap.read_set_width _ _ (Nat.le_refl _)]

end

/-- The store that succeeds has written all its bytes to `p`, where they are
read back; the store that does not has raised an exception. -/
def StoreKept (width : Width) (vm : Vm) (vaddr value p : BitVec 64) : Prop :=
  match cpuStore width vm vaddr value with
  | (vm', true) => BytesAt vm'.bus.ram p width.bytes value ∧
      (vmBusRead width vm'.bus p).2 = lowBytes width value
  | (vm', false) => vm'.cpu.trapTaken = true

/-- The load that succeeds returns the bytes at `p`, all of them. -/
def LoadKept (width : Width) (vm : Vm) (vaddr p : BitVec 64) : Prop :=
  match cpuLoad width vm vaddr with
  | (vm', some value) => BytesAt vm'.bus.ram p width.bytes value ∧ lowBytes width value = value
  | (vm', none) => vm'.cpu.trapTaken = true

/-- Of an access that is translated into the window of RAM, nothing is lost
exactly if it does not run over the end of RAM. -/
theorem ram_window_kept_iff (width : Width) (vm : Vm) (vaddr : BitVec 64) :
    (∀ bus p value, translateAddress vm.cpu vm.bus vaddr .store = (bus, .ok p) →
      addrInRange p ramBase ramSize = true →
      (StoreKept width vm vaddr value p ↔ InRam p width.bytes)) ∧
    (∀ bus p, translateAddress vm.cpu vm.bus vaddr .load = (bus, .ok p) →
      addrInRange p ramBase ramSize = true →
      (LoadKept width vm vaddr p ↔ InRam p width.bytes)) := by
  have hpos := Width.bytes_pos width
  have h8 := Width.bytes_le width
  refine ⟨fun bus p value ht hwin => ?_, fun bus p ht hwin => ?_⟩
  · have hp := (ram_range_iff p).mp hwin
    unfold StoreKept cpuStore
    rw [ht]
    constructor
    · intro hkept
      exact hkept.1.in_ram hp hpos h8
    · intro h
      exact ⟨write_bytes_at width bus h value, write_reads width bus h value⟩
  · have hp := (ram_range_iff p).mp hwin
    unfold LoadKept cpuLoad
    rw [ht]
    constructor
    · intro hkept
      exact hkept.1.in_ram hp hpos h8
    · intro h
      have hbus : (vmBusRead width bus p).1 = bus := by rw [bus_read_in_ram width bus h]
      refine ⟨?_, read_low_bytes width bus h⟩
      show BytesAt (vmBusRead width bus p).1.ram p width.bytes (vmBusRead width bus p).2
      rw [hbus]
      exact read_bytes_at width bus h

/-- The machine as it starts, with nothing in RAM. -/
def unloaded : Vm := vmInit (ramOf [])

theorem translate_unloaded (vaddr : BitVec 64) (acc : AccessType) :
    translateAddress unloaded.cpu unloaded.bus vaddr acc = (unloaded.bus, .ok vaddr) :=
  translate_machine (by cases acc <;> decide) _ _

/-- The last doubleword of RAM. -/
theorem last_doubleword_kept :
    StoreKept .w64 unloaded 0x83FFFFF8 0x1122334455667788 0x83FFFFF8 :=
  ((ram_window_kept_iff .w64 unloaded 0x83FFFFF8).1 _ _ _ (translate_unloaded _ _)
    (by decide)).mpr (by decide)

/-- Four bytes further the store succeeds as well, but zero is read back. -/
theorem store_lost_over_end :
    translateAddress unloaded.cpu unloaded.bus 0x83FFFFFC .store =
      (unloaded.bus, .ok 0x83FFFFFC) ∧
    addrInRange 0x83FFFFFC ramBase ramSize = true ∧
    (cpuStore .w64 unloaded 0x83FFFFFC 0x1122334455667788).2 = true ∧
    (vmBusRead .w64 (cpuStore .w64 unloaded 0x83FFFFFC 0x1122334455667788).1.bus
      0x83FFFFFC).2 = 0 ∧
    ¬ StoreKept .w64 unloaded 0x83FFFFFC 0x1122334455667788 0x83FFFFFC := by
  have hread : (vmBusRead .w64 (cpuStore .w64 unloaded 0x83FFFFFC
      0x1122334455667788).1.bus 0x83FFFFFC).2 = 0 := by decide
  refine ⟨translate_unloaded _ _, by decide, by decide, hread, fun hkept => ?_⟩
  have hback : (vmBusRead .w64 (cpuStore .w64 unloaded 0x83FFFFFC
      0x1122334455667788).1.bus 0x83FFFFFC).2 = lowBytes .w64 0x1122334455667788 := hkept.2
  rw [hread] at hback
  exact absurd hback (by decide)

end RiscvVm.Proofs
