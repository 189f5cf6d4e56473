import RiscvVm.Proofs.Bus
import Mathlib.Data.List.Induction

namespace RiscvVm.Proofs

/-- RAM by address rather than by index. -/
def ramBytes (bus : Bus) (x : BitVec 64) : BitVec 8 := bus.ram.mem (x - memBase)

/-- One call of `vm_bus_write8` to `vm_bus_write64`. -/
structure BusWrite where
  width : Width
  addr : BitVec 64
  value : BitVec 64

def BusWrite.run (bus : Bus) (write : BusWrite) : Bus :=
  vmBusWrite write.width bus write.addr write.value

/-- All bytes of the write lie in RAM. -/
def BusWrite.lands (write : BusWrite) : Bool := decide (InRam write.addr write.width.bytes)

/-- The byte at `x` is one of those the write sets. -/
def BusWrite.covers (write : BusWrite) (x : BitVec 64) : Bool :=
  decide ((x - write.addr).toNat < write.width.bytes)

/-- A byte map after a write: its bytes, least significant first, and no others. -/
def BusWrite.update (m : BitVec 64 → BitVec 8) (write : BusWrite) (x : BitVec 64) : BitVec 8 :=
  if write.covers x then ByteMap.byte write.value (x - write.addr).toNat else m x

/-- The last write that reached RAM and set the byte at `x`. -/
def latest (writes : List BusWrite) (x : BitVec 64) : Option BusWrite :=
  writes.reverse.find? fun write => write.lands && write.covers x

/-- What a byte of RAM is after a list of writes. -/
def latestByte (m : BitVec 64 → BitVec 8) (writes : List BusWrite) (x : BitVec 64) : BitVec 8 :=
  match latest writes x with
  | some write => ByteMap.byte write.value (x - write.addr).toNat
  | none => m x

theorem width_bytes_lt (width : Width) : width.bytes ≤ 2 ^ 64 :=
  Nat.le_trans (Width.bytes_le width) (by decide)

/-- A write all of whose bytes lie in RAM is one update of the byte map. -/
theorem run_lands (bus : Bus) {write : BusWrite} (h : InRam write.addr write.width.bytes) :
    ramBytes (write.run bus) = write.update (ramBytes bus) := by
  funext x
  have hx : x - memBase - (write.addr - memBase) = x - write.addr := by bv_omega
  simp only [ramBytes, BusWrite.run, bus_write_in_ram write.width bus write.value h,
    BusWrite.update, BusWrite.covers, decide_eq_true_eq]
  rw [ByteMap.write_apply _ _ _ _ (width_bytes_lt write.width), hx]

theorem run_misses (bus : Bus) {write : BusWrite} (h : ¬ InRam write.addr write.width.bytes) :
    (write.run bus).ram = bus.ram :=
  bus_write_outside write.width bus write.value h

/-- The run of a list of writes, against the updates of those that land. -/
theorem run_writes (bus : Bus) (writes : List BusWrite) :
    ramBytes (writes.foldl BusWrite.run bus) =
      (writes.filter BusWrite.lands).foldl BusWrite.update (ramBytes bus) := by
  induction writes generalizing bus with
  | nil => rfl
  | cons write writes ih =>
    by_cases hl : InRam write.addr write.width.bytes
    · have hd : write.lands = true := by simpa [BusWrite.lands] using hl
      rw [List.foldl_cons, List.filter_cons_of_pos hd, List.foldl_cons, ih, run_lands bus hl]
    · have hd : ¬ write.lands = true := by simpa [BusWrite.lands] using hl
      have hm : ramBytes (write.run bus) = ramBytes bus := by
        funext x
        simp only [ramBytes, run_misses bus hl]
      rw [List.foldl_cons, List.filter_cons_of_neg hd, ih, hm]

/-- Each byte is the one of the latest write that reached it. -/
theorem updates_latest (m : BitVec 64 → BitVec 8) (writes : List BusWrite) (x : BitVec 64) :
    (writes.filter BusWrite.lands).foldl BusWrite.update m x = latestByte m writes x := by
  induction writes using List.reverseRecOn with
  | nil => rfl
  | append_singleton writes write ih =>
    rw [List.filter_append, List.foldl_append]
    by_cases hl : write.lands = true
    · rw [List.filter_cons_of_pos hl, List.filter_nil, List.foldl_cons, List.foldl_nil]
      by_cases hc : write.covers x = true
      · simp [BusWrite.update, latestByte, latest, hl, hc]
      · simp [BusWrite.update, latestByte, latest, hl, hc, ih]
    · rw [List.filter_cons_of_neg hl, List.filter_nil, List.foldl_nil, ih]
      simp [latestByte, latest, hl]

/-- Every index of an access that is let through lies in the array. -/
theorem index_lt {p : BitVec 64} {n i : Nat} (h : InRam p n) (hi : i < n) :
    addressToIndex p + BitVec.ofNat 64 i < memSize := by
  have hb : memBase.toNat = 2147483648 := rfl
  have hs : memSize.toNat = 67108864 := rfl
  obtain ⟨hlo, hhi⟩ := h
  have hp := p.isLt
  rw [BitVec.lt_def, addressToIndex, BitVec.toNat_add, BitVec.toNat_sub, BitVec.toNat_ofNat]
  omega

theorem byte_at_index (mem : Memory) {p : BitVec 64} {n i : Nat} (h : InRam p n) (hi : i < n) :
    mem.byteAt (addressToIndex p + BitVec.ofNat 64 i) =
      some (mem.mem (addressToIndex p + BitVec.ofNat 64 i)) := by
  rw [Memory.byteAt, if_pos (index_lt h hi)]

/-- The bytes of a value with the offsets they are stored at. -/
def byteList {w : Nat} (v : BitVec w) (n : Nat) : List (BitVec 64 × BitVec 8) :=
  (List.range n).map fun i => (BitVec.ofNat 64 i, ByteMap.byte v i)

/-- Storing the bytes of a value one after the other never leaves the array. -/
theorem store_bytes {w : Nat} (mem : Memory) {p : BitVec 64} (v : BitVec w) {n k : Nat}
    (h : InRam p n) (hk : k ≤ n) :
    (byteList v k).foldlM (fun mem byte => mem.setByte (addressToIndex p + byte.1) byte.2) mem =
      some { mem := ByteMap.write mem.mem (addressToIndex p) v k } := by
  induction k with
  | zero => rfl
  | succ k ih =>
    have hl : byteList v (k + 1) = byteList v k ++ [(BitVec.ofNat 64 k, ByteMap.byte v k)] := by
      simp [byteList, List.range_succ]
    rw [hl, List.foldlM_append, ih (by omega)]
    simp [Memory.setByte, index_lt h (show k < n by omega), ByteMap.write, ByteMap.byte]

/-- A write spelled as the bytes of its value is the write of the byte map. -/
theorem write_checked_eq {w : Nat} (mem : Memory) (p : BitVec 64) (v : BitVec w) {n : Nat}
    (hn : 0 < n) (h8 : n ≤ 8) :
    memWriteChecked mem p (BitVec.ofNat 64 n) (byteList v n) = some (memWriteN n mem p v) := by
  by_cases h : InRam p n
  · rw [memWriteChecked, if_pos ((valid_access_iff p hn h8).mpr h), store_bytes mem v h (by omega),
      mem_write_in_ram mem v hn h8 h]
    rfl
  · rw [memWriteChecked, if_neg fun hv => h ((valid_access_iff p hn h8).mp hv),
      mem_write_outside mem v hn h8 h]

/-- Masking a byte before shifting it down changes nothing. -/
theorem masked_byte {w : Nat} (v : BitVec w) (i : Nat) (hi : 8 * i + 8 ≤ w) :
    ((v &&& (0xFF#w <<< (8 * i))) >>> (8 * i)).setWidth 8 = ByteMap.byte v i := by
  apply BitVec.eq_of_getLsbD_eq
  intro j hj
  have hm : (0xFF#w).getLsbD j = true := by
    rw [BitVec.getLsbD_ofNat, show (0xFF : Nat) = 2 ^ 8 - 1 from rfl, Nat.testBit_two_pow_sub_one]
    simp [hj, show j < w by omega]
  simp [ByteMap.byte, BitVec.getLsbD_ushiftRight, BitVec.getLsbD_and, BitVec.getLsbD_shiftLeft,
    hj, hm]
  omega

theorem masked_low {w : Nat} (v : BitVec w) (hw : 8 ≤ w) :
    (v &&& 0xFF#w).setWidth 8 = ByteMap.byte v 0 := by
  simpa using masked_byte v 0 (by omega)

theorem write8_checked (mem : Memory) (p : BitVec 64) (v : BitVec 8) :
    memWrite8Checked mem p v = some (memWrite8 mem p v) := by
  have h0 : v = ByteMap.byte v 0 := by simp [ByteMap.byte]
  rw [memWrite8Checked, h0]
  exact write_checked_eq mem p v (by decide) (by decide)

theorem write16_checked (mem : Memory) (p : BitVec 64) (v : BitVec 16) :
    memWrite16Checked mem p v = some (memWrite16 mem p v) := by
  have h0 : (v &&& 0x00FF).setWidth 8 = ByteMap.byte v 0 := masked_low v (by decide)
  rw [memWrite16Checked, h0]
  exact write_checked_eq mem p v (by decide) (by decide)

theorem write32_checked (mem : Memory) (p : BitVec 64) (v : BitVec 32) :
    memWrite32Checked mem p v = some (memWrite32 mem p v) := by
  have h0 : (v &&& 0x000000FF).setWidth 8 = ByteMap.byte v 0 := masked_low v (by decide)
  have h1 : ((v &&& 0x0000FF00) >>> 8).setWidth 8 = ByteMap.byte v 1 := masked_byte v 1 (by decide)
  have h2 : ((v &&& 0x00FF0000) >>> 16).setWidth 8 = ByteMap.byte v 2 := masked_byte v 2 (by decide)
  rw [memWrite32Checked, h0, h1, h2]
  exact write_checked_eq mem p v (by decide) (by decide)

theorem write64_checked (mem : Memory) (p v : BitVec 64) :
    memWrite64Checked mem p v = some (memWrite64 mem p v) := by
  have h0 : (v &&& 0x00000000000000FF).setWidth 8 = ByteMap.byte v 0 := masked_low v (by decide)
  have h1 : ((v &&& 0x000000000000FF00) >>> 8).setWidth 8 = ByteMap.byte v 1 :=
    masked_byte v 1 (by decide)
  have h2 : ((v &&& 0x0000000000FF0000) >>> 16).setWidth 8 = ByteMap.byte v 2 :=
    masked_byte v 2 (by decide)
  have h3 : ((v &&& 0x00000000FF000000) >>> 24).setWidth 8 = ByteMap.byte v 3 :=
    masked_byte v 3 (by decide)
  have h4 : ((v &&& 0x000000FF00000000) >>> 32).setWidth 8 = ByteMap.byte v 4 :=
    masked_byte v 4 (by decide)
  have h5 : ((v &&& 0x0000FF0000000000) >>> 40).setWidth 8 = ByteMap.byte v 5 :=
    masked_byte v 5 (by decide)
  have h6 : ((v &&& 0x00FF000000000000) >>> 48).setWidth 8 = ByteMap.byte v 6 :=
    masked_byte v 6 (by decide)
  rw [memWrite64Checked, h0, h1, h2, h3, h4, h5, h6]
  exact write_checked_eq mem p v (by decide) (by decide)

/-- A read spelled byte by byte is the read of the byte map. -/
theorem read_checked_eq {w : Nat} (mem : Memory) (p : BitVec 64) {n : Nat} (hn : 0 < n)
    (h8 : n ≤ 8) {body : Option (BitVec w)}
    (hbody : InRam p n → body = some (ByteMap.read w mem.mem (addressToIndex p) n)) :
    (if validAccess p (BitVec.ofNat 64 n) then body else some 0) = some (memReadN w n mem p) := by
  by_cases h : InRam p n
  · rw [if_pos ((valid_access_iff p hn h8).mpr h), hbody h, mem_read_in_ram mem hn h8 h]
    rfl
  · rw [if_neg fun hv => h ((valid_access_iff p hn h8).mp hv), mem_read_outside mem hn h8 h]

theorem byte_at_start (mem : Memory) {p : BitVec 64} {n : Nat} (h : InRam p n) (hn : 0 < n) :
    mem.byteAt (addressToIndex p) = some (mem.mem (addressToIndex p)) := by
  simpa using byte_at_index mem h hn

theorem read8_checked (mem : Memory) (p : BitVec 64) :
    memRead8Checked mem p = some (memRead8 mem p) := by
  refine read_checked_eq mem p (n := 1) (by decide) (by decide) fun h => ?_
  rw [byte_at_start mem h (by decide)]
  simp [ByteMap.read]

theorem read16_checked (mem : Memory) (p : BitVec 64) :
    memRead16Checked mem p = some (memRead16 mem p) := by
  refine read_checked_eq mem p (n := 2) (by decide) (by decide) fun h => ?_
  have h1 := byte_at_index mem h (i := 1) (by decide)
  rw [← ByteMap.read_set_width mem.mem (addressToIndex p) (w := 32) (by decide)]
  simp [byte_at_start mem h (by decide), h1, ByteMap.read]
  simp only [BitVec.or_comm]

/-- The source puts the last byte first. -/
theorem or_reverse4 {w : Nat} (b0 b1 b2 b3 : BitVec w) :
    b3 ||| b2 ||| b1 ||| b0 = b0 ||| b1 ||| b2 ||| b3 := by
  rw [BitVec.or_comm, BitVec.or_comm (b3 ||| b2) b1, BitVec.or_comm b3 b2, ← BitVec.or_assoc,
    ← BitVec.or_assoc]

theorem or_reverse8 {w : Nat} (b0 b1 b2 b3 b4 b5 b6 b7 : BitVec w) :
    b7 ||| b6 ||| b5 ||| b4 ||| b3 ||| b2 ||| b1 ||| b0 =
      b0 ||| b1 ||| b2 ||| b3 ||| b4 ||| b5 ||| b6 ||| b7 := by
  calc b7 ||| b6 ||| b5 ||| b4 ||| b3 ||| b2 ||| b1 ||| b0
    _ = (b7 ||| b6 ||| b5 ||| b4) ||| (b3 ||| b2 ||| b1 ||| b0) := by simp only [BitVec.or_assoc]
    _ = (b0 ||| b1 ||| b2 ||| b3) ||| (b4 ||| b5 ||| b6 ||| b7) := by
      rw [or_reverse4 b0 b1 b2 b3, or_reverse4 b4 b5 b6 b7, BitVec.or_comm]
    _ = b0 ||| b1 ||| b2 ||| b3 ||| b4 ||| b5 ||| b6 ||| b7 := by simp only [BitVec.or_assoc]

theorem read32_checked (mem : Memory) (p : BitVec 64) :
    memRead32Checked mem p = some (memRead32 mem p) := by
  refine read_checked_eq mem p (n := 4) (by decide) (by decide) fun h => ?_
  have h1 := byte_at_index mem h (i := 1) (by decide)
  have h2 := byte_at_index mem h (i := 2) (by decide)
  have h3 := byte_at_index mem h (i := 3) (by decide)
  simp [byte_at_start mem h (by decide), h1, h2, h3, ByteMap.read]
  exact or_reverse4 _ _ _ _

theorem read64_checked (mem : Memory) (p : BitVec 64) :
    memRead64Checked mem p = some (memRead64 mem p) := by
  refine read_checked_eq mem p (n := 8) (by decide) (by decide) fun h => ?_
  have h1 := byte_at_index mem h (i := 1) (by decide)
  have h2 := byte_at_index mem h (i := 2) (by decide)
  have h3 := byte_at_index mem h (i := 3) (by decide)
  have h4 := byte_at_index mem h (i := 4) (by decide)
  have h5 := byte_at_index mem h (i := 5) (by decide)
  have h6 := byte_at_index mem h (i := 6) (by decide)
  have h7 := byte_at_index mem h (i := 7) (by decide)
  simp [byte_at_start mem h (by decide), h1, h2, h3, h4, h5, h6, h7, ByteMap.read]
  exact or_reverse8 _ _ _ _ _ _ _ _

/-- The eight functions of memory.c, with every index into the array checked,
are the accesses of the byte map: no index leaves the array. -/
structure InBounds (mem : Memory) (p : BitVec 64) : Prop where
  write8 : ∀ v, memWrite8Checked mem p v = some (memWrite8 mem p v)
  write16 : ∀ v, memWrite16Checked mem p v = some (memWrite16 mem p v)
  write32 : ∀ v, memWrite32Checked mem p v = some (memWrite32 mem p v)
  write64 : ∀ v, memWrite64Checked mem p v = some (memWrite64 mem p v)
  read8 : memRead8Checked mem p = some (memRead8 mem p)
  read16 : memRead16Checked mem p = some (memRead16 mem p)
  read32 : memRead32Checked mem p = some (memRead32 mem p)
  read64 : memRead64Checked mem p = some (memRead64 mem p)

theorem in_bounds (mem : Memory) (p : BitVec 64) : InBounds mem p where
  write8 := write8_checked mem p
  write16 := write16_checked mem p
  write32 := write32_checked mem p
  write64 := write64_checked mem p
  read8 := read8_checked mem p
  read16 := read16_checked mem p
  read32 := read32_checked mem p
  read64 := read64_checked mem p

theorem read_ram_bytes (width : Width) (bus : Bus) {p : BitVec 64} (h : InRam p width.bytes) :
    vmBusRead width bus p = (bus, ByteMap.read 64 (ramBytes bus) p width.bytes) := by
  rw [bus_read_in_ram width bus h]
  exact congrArg (Prod.mk bus) (ByteMap.read_based bus.ram.mem memBase p width.bytes).symm

/-- After any writes of any widths to any addresses, RAM is the byte map updated
by exactly those whose bytes all lie in it, so each byte is the one of the latest
write that reached it; a read in RAM is the little-endian value of the current
bytes and changes nothing; and no access leaves the array behind RAM. -/
theorem ram_is_byte_map (bus : Bus) (writes : List BusWrite) :
    ramBytes (writes.foldl BusWrite.run bus) =
      (writes.filter BusWrite.lands).foldl BusWrite.update (ramBytes bus) ∧
    ramBytes (writes.foldl BusWrite.run bus) = latestByte (ramBytes bus) writes ∧
    (∀ write : BusWrite, ¬ InRam write.addr write.width.bytes →
      (write.run (writes.foldl BusWrite.run bus)).ram = (writes.foldl BusWrite.run bus).ram) ∧
    (∀ (width : Width) (p : BitVec 64), InRam p width.bytes →
      vmBusRead width (writes.foldl BusWrite.run bus) p =
        (writes.foldl BusWrite.run bus,
          ByteMap.read 64 (ramBytes (writes.foldl BusWrite.run bus)) p width.bytes)) ∧
    ∀ mem p, InBounds mem p := by
  refine ⟨run_writes bus writes, ?_, fun write h => run_misses _ h, fun width p h =>
    read_ram_bytes width _ h, in_bounds⟩
  rw [run_writes]
  funext x
  exact updates_latest (ramBytes bus) writes x

/-- RAM with these contents, as far as it goes. -/
def ramLike (ram ram' : Memory) : Memory :=
  { mem := fun idx => if idx < ramSize then ram.mem idx else ram'.mem idx }

end RiscvVm.Proofs
