import RiscvVm.Proofs.Paging
namespace RiscvVm.Proofs
open Sv39

def pageOf (va : BitVec 64) : BitVec 64 := va &&& ~~~0xFFF#64
def offsetOf (va : BitVec 64) : BitVec 64 := va &&& 0xFFF#64

theorem offset_to_nat (va : BitVec 64) : (offsetOf va).toNat = va.toNat % 4096 := by
  rw [offsetOf, BitVec.toNat_and]
  exact Nat.and_two_pow_sub_one_eq_mod va.toNat 12

theorem page_or_offset (va : BitVec 64) : pageOf va ||| offsetOf va = va := by
  unfold pageOf offsetOf
  rw [← BitVec.and_or_distrib_left, BitVec.not_or_self, BitVec.and_allOnes]

theorem page_and_offset (x va : BitVec 64) : pageOf x &&& offsetOf va = 0 := by
  apply BitVec.eq_of_getLsbD_eq
  intro i hi
  simp only [pageOf, offsetOf, BitVec.getLsbD_and, BitVec.getLsbD_not, hi, decide_true,
    Bool.true_and]
  cases (0xFFF#64).getLsbD i <;> simp

theorem page_add_offset (va : BitVec 64) : pageOf va + offsetOf va = va := by
  rw [BitVec.add_eq_or_of_and_eq_zero _ _ (page_and_offset va va), page_or_offset]

theorem page_to_nat (va : BitVec 64) : (pageOf va).toNat = va.toNat - va.toNat % 4096 := by
  have h : pageOf va = va - offsetOf va := by
    rw [BitVec.eq_sub_iff_add_eq, page_add_offset]
  have ho := offset_to_nat va
  have hv := va.isLt
  rw [h, BitVec.toNat_sub, ho]
  omega

theorem page_bit (va : BitVec 64) {i : Nat} (hi : 12 ≤ i) :
    (pageOf va).getLsbD i = va.getLsbD i := by
  by_cases h64 : i < 64
  · have hz : (0xFFF#64).getLsbD i = false := by
      have h := BitVec.getLsbD_ofNat 64 (2 ^ 12 - 1) i
      rw [Nat.testBit_two_pow_sub_one] at h
      simpa [show ¬ i < 12 by omega] using h
    simp only [pageOf, BitVec.getLsbD_and, BitVec.getLsbD_not, hz, h64, decide_true, Bool.not_false,
      Bool.and_true]
  · rw [BitVec.getLsbD_of_ge _ _ (by omega), BitVec.getLsbD_of_ge _ _ (by omega)]

theorem page_shift (va : BitVec 64) {k : Nat} (hk : 12 ≤ k) : pageOf va >>> k = va >>> k := by
  apply BitVec.eq_of_getLsbD_eq
  intro i hi
  rw [BitVec.getLsbD_ushiftRight, BitVec.getLsbD_ushiftRight, page_bit va (by omega)]

theorem page_vpn (va : BitVec 64) : vpnOf (pageOf va) = vpnOf va := by
  funext i
  match i with
  | 0 => simp (disch := omega) only [vpnOf, page_shift]
  | 1 => simp (disch := omega) only [vpnOf, page_shift]
  | i + 2 => simp (disch := omega) only [vpnOf, page_shift]

theorem page_upper_bits (va : BitVec 64) : checkUpperBits (pageOf va) = checkUpperBits va := by
  unfold checkUpperBits
  rw [page_bit va (by omega), page_shift va (by omega)]

theorem page_offset_zero (va : BitVec 64) : pageOf va &&& 0xFFF = 0 := by
  have h := page_and_offset va (BitVec.allOnes 64)
  rwa [offsetOf, BitVec.allOnes_and] at h

/-- The same outcome with the page offset put into the physical address. -/
def WalkEntry.withOffset (offset : BitVec 64) : WalkEntry → WalkEntry
  | .fault => .fault
  | .table next => .table next
  | .leaf updatedPte physicalAddress => .leaf updatedPte (physicalAddress ||| offset)

theorem walk_entry_page (cpu : Cpu) (va : BitVec 64) (acc : AccessType) (priv : BitVec 8) (i : Nat)
    (pte : BitVec 64) : walkEntry cpu va acc priv i pte =
      WalkEntry.withOffset (offsetOf va) (walkEntry cpu (pageOf va) acc priv i pte) := by
  unfold walkEntry
  dsimp only
  have hoff : getPhysicalAddress (ptePpn pte) (vpnOf va) (va &&& 0xFFF) i =
      getPhysicalAddress (ptePpn pte) (vpnOf va) 0 i ||| offsetOf va := by
    simp [getPhysicalAddress, offsetOf]
  rw [page_vpn, page_offset_zero, hoff]
  simp only [apply_ite (WalkEntry.withOffset (offsetOf va))]
  rfl

theorem sv39_loop_page (cpu : Cpu) (bus : Bus) (va : BitVec 64) (acc : AccessType)
    (priv : BitVec 8) (i : Nat) (table : BitVec 64) :
    sv39Loop cpu bus va acc priv i table =
      ((sv39Loop cpu bus (pageOf va) acc priv i table).1,
        (sv39Loop cpu bus (pageOf va) acc priv i table).2.map (· ||| offsetOf va)) := by
  induction i generalizing table with
  | zero =>
    unfold sv39Loop
    dsimp only
    rw [page_vpn, walk_entry_page cpu va]
    cases walkEntry cpu (pageOf va) acc priv 0 (vmBusRead64 bus (table + vpnOf va 0 * 8)) <;> rfl
  | succ i ih =>
    unfold sv39Loop
    dsimp only
    rw [page_vpn, walk_entry_page cpu va]
    cases walkEntry cpu (pageOf va) acc priv (i + 1)
      (vmBusRead64 bus (table + vpnOf va (i + 1) * 8)) with
    | fault => rfl
    | table next => exact ih next
    | leaf u p => rfl

/-- Translation looks at the page only and carries the offset over. -/
theorem translate_page (cpu : Cpu) (bus : Bus) (va : BitVec 64) (acc : AccessType) :
    translateAddress cpu bus va acc =
      ((translateAddress cpu bus (pageOf va) acc).1,
        (translateAddress cpu bus (pageOf va) acc).2.map (· ||| offsetOf va)) := by
  unfold translateAddress
  dsimp only
  split
  · exact congrArg (fun p => (bus, Except.ok p)) (page_or_offset va).symm
  split
  · unfold sv39
    dsimp only
    rw [page_upper_bits]
    split
    · rfl
    · exact sv39_loop_page cpu bus va acc _ 2 _
  · rfl

/-- The frame of a page starts on a page boundary. -/
theorem frame_low {cpu : Cpu} {bus bus' : Bus} {va p : BitVec 64} {acc : AccessType}
    (h : translateAddress cpu bus (pageOf va) acc = (bus', .ok p)) : p.toNat % 4096 = 0 := by
  rcases translate_ok h with ⟨_, rfl⟩ | ⟨level, addr, _, _, _, rfl, _⟩
  · rw [page_to_nat]
    omega
  · have hoff : pageOffset (pageOf va) = 0 := by
      have h := page_offset_eq (pageOf va)
      rw [page_offset_zero] at h
      exact (set_width_eq_zero_iff (by omega) _).mp h.symm
    unfold physical
    rw [hoff]
    exact page_addr_low _

/-- The access may be made to the byte at `va`, and goes to `p`. -/
def Reaches (vm : Vm) (va : BitVec 64) (acc : AccessType) (p : BitVec 64) : Prop :=
  (translateAddress vm.cpu vm.bus va acc).2 = .ok p

theorem Reaches.unique {vm : Vm} {va p q : BitVec 64} {acc : AccessType}
    (hp : Reaches vm va acc p) (hq : Reaches vm va acc q) : p = q :=
  Except.ok.inj (hp.symm.trans hq)

theorem reaches_iff (vm : Vm) (va : BitVec 64) (acc : AccessType) (p : BitVec 64) :
    Reaches vm va acc p ↔ ∃ frame, Reaches vm (pageOf va) acc frame ∧ p = frame + offsetOf va := by
  have hadd : ∀ frame, Reaches vm (pageOf va) acc frame →
      frame ||| offsetOf va = frame + offsetOf va := by
    intro frame h
    have hlow := frame_low (Prod.ext rfl h)
    have hpage : pageOf frame = frame := by
      apply BitVec.eq_of_toNat_eq
      rw [page_to_nat, hlow]
      omega
    have hz := page_and_offset frame va
    rw [hpage] at hz
    exact (BitVec.add_eq_or_of_and_eq_zero _ _ hz).symm
  unfold Reaches at hadd ⊢
  rw [translate_page]
  cases hr : (translateAddress vm.cpu vm.bus (pageOf va) acc).2 with
  | error e =>
    constructor
    · intro h
      cases h
    · rintro ⟨frame, h, _⟩
      cases h
  | ok frame =>
    have he := hadd frame hr
    constructor
    · intro h
      cases h
      exact ⟨frame, rfl, he⟩
    · rintro ⟨_, h, rfl⟩
      cases h
      exact congrArg Except.ok he

theorem byte_same_page (va : BitVec 64) {i : Nat} (h : (offsetOf va).toNat + i < 4096) :
    pageOf (va + BitVec.ofNat 64 i) = pageOf va ∧
      offsetOf (va + BitVec.ofNat 64 i) = offsetOf va + BitVec.ofNat 64 i := by
  have hv := va.isLt
  rw [offset_to_nat] at h
  constructor
  · apply BitVec.eq_of_toNat_eq
    rw [page_to_nat, page_to_nat, BitVec.toNat_add, BitVec.toNat_ofNat]
    omega
  · apply BitVec.eq_of_toNat_eq
    rw [offset_to_nat, BitVec.toNat_add, BitVec.toNat_add, offset_to_nat, BitVec.toNat_ofNat]
    omega

theorem byte_next_page (va : BitVec 64) {i : Nat} (h : 4096 ≤ (offsetOf va).toNat + i)
    (hi : i < 4096) : pageOf (va + BitVec.ofNat 64 i) = pageOf va + 4096 ∧
      4096 + offsetOf (va + BitVec.ofNat 64 i) = offsetOf va + BitVec.ofNat 64 i := by
  have hv := va.isLt
  have hk : (4096 : BitVec 64).toNat = 4096 := rfl
  rw [offset_to_nat] at h
  constructor
  · apply BitVec.eq_of_toNat_eq
    rw [page_to_nat, BitVec.toNat_add, BitVec.toNat_add, page_to_nat, BitVec.toNat_ofNat, hk]
    omega
  · apply BitVec.eq_of_toNat_eq
    rw [BitVec.toNat_add, offset_to_nat, BitVec.toNat_add, BitVec.toNat_add, offset_to_nat,
      BitVec.toNat_ofNat, hk]
    omega

/-- The `n` bytes from `va` do not all lie in one page. -/
def CrossesPage (va : BitVec 64) (n : Nat) : Prop := 4096 < (offsetOf va).toNat + n

/-- The page after that of `va` is mapped to the frame after its frame. -/
def NextPageFollows (vm : Vm) (va : BitVec 64) (acc : AccessType) : Prop :=
  ∃ frame, Reaches vm (pageOf va) acc frame ∧ Reaches vm (pageOf va + 4096) acc (frame + 4096)

/-- Every byte of an access that reaches `p` has its own translation to the
byte the access goes to, unless the access runs into a page mapped elsewhere. -/
theorem bytes_reach_iff {vm : Vm} {va p : BitVec 64} {acc : AccessType} (hp : Reaches vm va acc p)
    {n : Nat} (hn : n ≤ 8) :
    (∀ i < n, Reaches vm (va + BitVec.ofNat 64 i) acc (p + BitVec.ofNat 64 i)) ↔
      (CrossesPage va n → NextPageFollows vm va acc) := by
  obtain ⟨frame, hframe, rfl⟩ := (reaches_iff vm va acc p).mp hp
  unfold CrossesPage
  constructor
  · intro hall hcross
    have hoff : (offsetOf va).toNat < 4096 := by
      rw [offset_to_nat]
      omega
    have hi : 4096 - (offsetOf va).toNat < n := by omega
    have hfirst := hall (4096 - (offsetOf va).toNat) hi
    obtain ⟨hpage, hoffset⟩ := byte_next_page va (i := 4096 - (offsetOf va).toNat)
      (by omega) (by omega)
    obtain ⟨frame', hframe', he⟩ := (reaches_iff _ _ _ _).mp hfirst
    rw [hpage] at hframe'
    rw [BitVec.add_assoc, ← hoffset, ← BitVec.add_assoc] at he
    rw [BitVec.add_left_inj] at he
    refine ⟨frame, hframe, ?_⟩
    rw [he]
    exact hframe'
  · intro hnext i hi
    rw [reaches_iff]
    rcases Nat.lt_or_ge ((offsetOf va).toNat + i) 4096 with hlt | hge
    · obtain ⟨hpage, hoffset⟩ := byte_same_page va hlt
      rw [hpage, hoffset, BitVec.add_assoc]
      exact ⟨frame, hframe, rfl⟩
    · obtain ⟨hpage, hoffset⟩ := byte_next_page va hge (by omega)
      obtain ⟨frame', hf, hf'⟩ := hnext (by omega)
      cases hf.unique hframe
      rw [hpage]
      exact ⟨frame + 4096, hf', by rw [BitVec.add_assoc, ← hoffset, BitVec.add_assoc]⟩

/-- Some of the `n` bytes from `p` are in RAM, and some are not. -/
def Straddles (p : BitVec 64) (n : Nat) : Prop :=
  (∃ i < n, InRam (p + BitVec.ofNat 64 i) 1) ∧ ¬ InRam p n

/-- A bus read whose byte `i` is the one at `q i`: whatever RAM holds, each byte
that is in RAM is read there, and no other byte of RAM is looked at. -/
structure ReadsFrom (width : Width) (bus bus' : Bus) (value : BitVec 64) (q : Nat → BitVec 64) :
    Prop where
  read : vmBusRead width bus (q 0) = (bus', value)
  consecutive : ∀ i < width.bytes, q i = q 0 + BitVec.ofNat 64 i
  ram : ∀ i < width.bytes, InRam (q i) 1 → ∀ ram : Memory,
    ByteMap.byte (vmBusRead width { bus with ram := ram } (q 0)).2 i = ram.mem (q i - memBase)
  others : ∀ ram : Memory, (∀ i < width.bytes, InRam (q i) 1 →
      ram.mem (q i - memBase) = bus.ram.mem (q i - memBase)) →
    (vmBusRead width { bus with ram := ram } (q 0)).2 = value

/-- A bus write whose byte `i` goes to `q i`: whatever RAM held, each byte that is
in RAM is written there, and no other byte of RAM changes. -/
structure WritesTo (width : Width) (bus bus' : Bus) (value : BitVec 64) (q : Nat → BitVec 64) :
    Prop where
  write : bus' = vmBusWrite width bus (q 0) value
  consecutive : ∀ i < width.bytes, q i = q 0 + BitVec.ofNat 64 i
  ram : ∀ i < width.bytes, InRam (q i) 1 → ∀ ram : Memory,
    (vmBusWrite width { bus with ram := ram } (q 0) value).ram.mem (q i - memBase) =
      ByteMap.byte value i
  others : ∀ x, (∀ i < width.bytes, InRam (q i) 1 → x ≠ q i) →
    bus'.ram.mem (x - memBase) = bus.ram.mem (x - memBase)

theorem add_sub_base (p : BitVec 64) (i : Nat) :
    p + BitVec.ofNat 64 i - memBase = p - memBase + BitVec.ofNat 64 i := by
  rw [BitVec.sub_eq_add_neg, BitVec.sub_eq_add_neg, BitVec.add_assoc, BitVec.add_assoc,
    BitVec.add_comm (BitVec.ofNat 64 i)]

theorem in_ram_byte {p : BitVec 64} {n i : Nat} (h : InRam p n) (hi : i < n) :
    InRam (p + BitVec.ofNat 64 i) 1 := by
  have hbase : memBase.toNat = 2147483648 := rfl
  have hsize : memSize.toNat = 67108864 := rfl
  unfold InRam at h ⊢
  rw [BitVec.toNat_add, BitVec.toNat_ofNat]
  omega

theorem outside_bytes {p : BitVec 64} {n i : Nat} (hs : ¬ Straddles p n) (h : ¬ InRam p n)
    (hi : i < n) : ¬ InRam (p + BitVec.ofNat 64 i) 1 := fun hbyte => hs ⟨⟨i, hi, hbyte⟩, h⟩

theorem reads_from (width : Width) (bus : Bus) {p : BitVec 64} (hs : ¬ Straddles p width.bytes) :
    ReadsFrom width bus (vmBusRead width bus p).1 (vmBusRead width bus p).2
      (fun i => p + BitVec.ofNat 64 i) := by
  have h0 : p + BitVec.ofNat 64 0 = p := BitVec.add_zero p
  have h8 := Width.bytes_le width
  refine ⟨by rw [h0], fun i _ => by rw [h0], fun i hi hbyte ram => ?_, fun ram hsame => ?_⟩
  · by_cases h : InRam p width.bytes
    · rw [h0, bus_read_in_ram width { bus with ram := ram } h, add_sub_base]
      exact ByteMap.byte_read ram.mem _ hi (by omega)
    · exact absurd hbyte (outside_bytes hs h hi)
  · rw [h0]
    by_cases h : InRam p width.bytes
    · rw [bus_read_in_ram width { bus with ram := ram } h, bus_read_in_ram width bus h]
      refine ByteMap.read_congr fun i hi => ?_
      have hbyte := hsame i hi (in_ram_byte h hi)
      rwa [add_sub_base] at hbyte
    · exact bus_read_outside width bus ram h

theorem writes_to (width : Width) (bus : Bus) {p : BitVec 64} (value : BitVec 64)
    (hs : ¬ Straddles p width.bytes) :
    WritesTo width bus (vmBusWrite width bus p value) value (fun i => p + BitVec.ofNat 64 i) := by
  have h0 : p + BitVec.ofNat 64 0 = p := BitVec.add_zero p
  have h8 := Width.bytes_le width
  refine ⟨by rw [h0], fun i _ => by rw [h0], fun i hi hbyte ram => ?_, fun x hx => ?_⟩
  · by_cases h : InRam p width.bytes
    · rw [h0, bus_write_in_ram width { bus with ram := ram } value h, add_sub_base]
      exact ByteMap.write_inside ram.mem _ value (by omega) hi
    · exact absurd hbyte (outside_bytes hs h hi)
  · by_cases h : InRam p width.bytes
    · rw [bus_write_in_ram width bus value h]
      refine ByteMap.write_outside bus.ram.mem _ value (by omega) ?_
      rw [sub_sub_sub_cancel]
      apply Nat.le_of_not_lt
      intro hlt
      exact hx _ hlt (in_ram_byte h hlt) ((ByteMap.sub_toNat_offset p x (BitVec.isLt _)).mpr rfl)
    · rw [bus_write_outside width bus value h]

/-- What straddles an end of RAM is read without RAM being looked at. -/
theorem ReadsFrom.whole {width : Width} {bus bus' : Bus} {value : BitVec 64} {q : Nat → BitVec 64}
    (h : ReadsFrom width bus bus' value q) : ¬ Straddles (q 0) width.bytes := by
  rintro ⟨⟨i, hi, hbyte⟩, hout⟩
  rw [← h.consecutive i hi] at hbyte
  have hzeros := h.ram i hi hbyte { mem := fun _ => 0 }
  have hones := h.ram i hi hbyte { mem := fun _ => 1 }
  rw [bus_read_outside width bus _ hout] at hzeros hones
  have hzero : (0 : BitVec 8) = 1 := hzeros.symm.trans hones
  exact absurd hzero (by decide)

/-- And it is written without RAM being changed. -/
theorem WritesTo.whole {width : Width} {bus bus' : Bus} {value : BitVec 64} {q : Nat → BitVec 64}
    (h : WritesTo width bus bus' value q) : ¬ Straddles (q 0) width.bytes := by
  rintro ⟨⟨i, hi, hbyte⟩, hout⟩
  rw [← h.consecutive i hi] at hbyte
  have hkept := h.ram i hi hbyte { mem := fun _ => ByteMap.byte value i + 1 }
  rw [bus_write_outside width _ value hout] at hkept
  simp at hkept

/-- A load that succeeds reads each byte where that byte's own address leads. -/
def LoadBytewise (width : Width) (vm : Vm) (va : BitVec 64) : Prop :=
  ∀ vm' value, cpuLoad width vm va = (vm', some value) →
    ∃ q, (∀ i < width.bytes, Reaches vm (va + BitVec.ofNat 64 i) .load (q i)) ∧
      ReadsFrom width (translateAddress vm.cpu vm.bus va .load).1 vm'.bus value q

def StoreBytewise (width : Width) (vm : Vm) (va value : BitVec 64) : Prop :=
  ∀ vm', cpuStore width vm va value = (vm', true) →
    ∃ q, (∀ i < width.bytes, Reaches vm (va + BitVec.ofNat 64 i) .store (q i)) ∧
      WritesTo width (translateAddress vm.cpu vm.bus va .store).1 vm'.bus value q

def FetchBytewise (vm : Vm) : Prop :=
  ∀ vm' word, cpuFetch vm = (vm', some word) →
    ∃ q, (∀ i < 4, Reaches vm (vm.cpu.pc + BitVec.ofNat 64 i) .fetch (q i)) ∧
      ReadsFrom .w32 (translateAddress vm.cpu vm.bus vm.cpu.pc .fetch).1 vm'.bus
        (word.setWidth 64) q

/-- Where the first byte is mapped and the access runs into the next page, that
page is mapped to the next frame. -/
def Unbroken (vm : Vm) (va : BitVec 64) (acc : AccessType) (n : Nat) : Prop :=
  (∃ p, Reaches vm va acc p) → CrossesPage va n → NextPageFollows vm va acc

theorem unbroken_of_bytes {vm : Vm} {va : BitVec 64} {acc : AccessType} {n : Nat} (hn : 0 < n)
    (h8 : n ≤ 8) {q : Nat → BitVec 64}
    (hq : ∀ i < n, Reaches vm (va + BitVec.ofNat 64 i) acc (q i))
    (hc : ∀ i < n, q i = q 0 + BitVec.ofNat 64 i) : Unbroken vm va acc n := by
  rintro ⟨p, hp⟩
  refine (bytes_reach_iff hp h8).mp fun i hi => ?_
  have hfirst := hq 0 hn
  rw [show va + BitVec.ofNat 64 0 = va from BitVec.add_zero va] at hfirst
  rw [hp.unique hfirst, ← hc i hi]
  exact hq i hi

/-- Where the first byte is mapped, the access does not straddle an end of RAM. -/
def Whole (vm : Vm) (va : BitVec 64) (acc : AccessType) (n : Nat) : Prop :=
  ∀ p, Reaches vm va acc p → ¬ Straddles p n

theorem whole_of_first {vm : Vm} {va : BitVec 64} {acc : AccessType} {n : Nat} (hn : 0 < n)
    {q : Nat → BitVec 64} (hq : ∀ i < n, Reaches vm (va + BitVec.ofNat 64 i) acc (q i))
    (hs : ¬ Straddles (q 0) n) : Whole vm va acc n := by
  intro p hp
  have hfirst := hq 0 hn
  rw [show va + BitVec.ofNat 64 0 = va from BitVec.add_zero va] at hfirst
  rwa [hp.unique hfirst]

/-- What is not mapped meets both. -/
theorem unmapped_meets {vm : Vm} {va e : BitVec 64} {acc : AccessType} {bus : Bus}
    (ht : translateAddress vm.cpu vm.bus va acc = (bus, .error e)) (n : Nat) :
    Unbroken vm va acc n ∧ Whole vm va acc n := by
  have hno : ∀ p, ¬ Reaches vm va acc p := by
    intro p hp
    rw [Reaches, ht] at hp
    cases hp
  exact ⟨fun ⟨p, hp⟩ => absurd hp (hno p), fun p hp => absurd hp (hno p)⟩

theorem load_bytewise_iff (width : Width) (vm : Vm) (va : BitVec 64) :
    LoadBytewise width vm va ↔
      Unbroken vm va .load width.bytes ∧ Whole vm va .load width.bytes := by
  have h8 := Width.bytes_le width
  have hpos := Width.bytes_pos width
  unfold LoadBytewise cpuLoad
  rcases ht : translateAddress vm.cpu vm.bus va .load with ⟨bus, e | p⟩
  · exact iff_of_true (fun vm' value h => (by cases h)) (unmapped_meets ht _)
  · have hp : Reaches vm va .load p := by rw [Reaches, ht]
    constructor
    · intro h
      obtain ⟨q, hq, hr⟩ := h _ _ rfl
      exact ⟨unbroken_of_bytes hpos h8 hq hr.consecutive, whole_of_first hpos hq hr.whole⟩
    · rintro ⟨hunbroken, hwhole⟩ vm' value he
      cases he
      exact ⟨_, (bytes_reach_iff hp h8).mpr (hunbroken ⟨p, hp⟩),
        reads_from width bus (hwhole p hp)⟩

theorem store_bytewise_iff (width : Width) (vm : Vm) (va value : BitVec 64) :
    StoreBytewise width vm va value ↔
      Unbroken vm va .store width.bytes ∧ Whole vm va .store width.bytes := by
  have h8 := Width.bytes_le width
  have hpos := Width.bytes_pos width
  unfold StoreBytewise cpuStore
  rcases ht : translateAddress vm.cpu vm.bus va .store with ⟨bus, e | p⟩
  · exact iff_of_true (fun vm' h => (by cases h)) (unmapped_meets ht _)
  · have hp : Reaches vm va .store p := by rw [Reaches, ht]
    constructor
    · intro h
      obtain ⟨q, hq, hw⟩ := h _ rfl
      exact ⟨unbroken_of_bytes hpos h8 hq hw.consecutive, whole_of_first hpos hq hw.whole⟩
    · rintro ⟨hunbroken, hwhole⟩ vm' he
      cases he
      exact ⟨_, (bytes_reach_iff hp h8).mpr (hunbroken ⟨p, hp⟩),
        writes_to width bus value (hwhole p hp)⟩

theorem fetch_bytewise_iff (vm : Vm) :
    FetchBytewise vm ↔ Unbroken vm vm.cpu.pc .fetch 4 ∧ Whole vm vm.cpu.pc .fetch 4 := by
  unfold FetchBytewise cpuFetch
  rcases ht : translateAddress vm.cpu vm.bus vm.cpu.pc .fetch with ⟨bus, e | p⟩
  · exact iff_of_true (fun vm' word h => (by cases h)) (unmapped_meets ht _)
  · have hp : Reaches vm vm.cpu.pc .fetch p := by rw [Reaches, ht]
    constructor
    · intro h
      obtain ⟨q, hq, hr⟩ := h _ _ rfl
      exact ⟨unbroken_of_bytes (by omega) (by omega) hq hr.consecutive,
        whole_of_first (by omega) hq hr.whole⟩
    · rintro ⟨hunbroken, hwhole⟩ vm' word he
      cases he
      exact ⟨_, (bytes_reach_iff hp (by omega)).mpr (hunbroken ⟨p, hp⟩),
        reads_from .w32 bus (hwhole p hp)⟩

/-- Loads, stores and fetches of every width translate the first byte only and
make one access of the bus. So they read and write their bytes where the own
address of each leads exactly when the mapping behind them is unbroken and they
do not straddle an end of RAM, where the bus drops the access. -/
theorem access_bytewise_iff (vm : Vm) :
    (∀ width va, LoadBytewise width vm va ↔
      Unbroken vm va .load width.bytes ∧ Whole vm va .load width.bytes) ∧
    (∀ width va value, StoreBytewise width vm va value ↔
      Unbroken vm va .store width.bytes ∧ Whole vm va .store width.bytes) ∧
    (FetchBytewise vm ↔ Unbroken vm vm.cpu.pc .fetch 4 ∧ Whole vm vm.cpu.pc .fetch 4) :=
  ⟨fun width va => load_bytewise_iff width vm va,
    fun width va value => store_bytewise_iff width vm va value, fetch_bytewise_iff vm⟩

/-- A supervisor whose page 0 is mapped to the frame at `0x80004000`, and whose
page 1 is not mapped. -/
def lastMappedPage : Vm :=
  { cpu := supervisor
    bus := busOf (ramOf
      [(0x1000, 0x20000801), (0x2000, 0x20000C01), (0x3000, 0x200010CF)]) }

/-- A doubleword load four bytes before the end of page 0 succeeds, though its
last four bytes lie in page 1. -/
theorem load_past_last_mapped_page : ¬ LoadBytewise .w64 lastMappedPage 0xFFC := by
  have hload : (cpuLoad .w64 lastMappedPage 0xFFC).2 = some 0 := by decide +kernel
  have hfault : (translateAddress supervisor lastMappedPage.bus
      (0xFFC + BitVec.ofNat 64 4) .load).2.toOption = none := by decide +kernel
  intro h
  obtain ⟨q, hq, _⟩ := h _ _ (Prod.ext rfl hload)
  have hfour : Reaches lastMappedPage (0xFFC + BitVec.ofNat 64 4) .load (q 4) :=
    hq 4 (by decide)
  rw [show (translateAddress supervisor lastMappedPage.bus (0xFFC + BitVec.ofNat 64 4) .load).2 =
    .ok (q 4) from hfour] at hfault
  cases hfault

end RiscvVm.Proofs
