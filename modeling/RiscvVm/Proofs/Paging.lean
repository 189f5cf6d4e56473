import RiscvVm.Proofs.Bus
import RiscvVm.Lib.Bits
import RiscvVm.Lib.Sv39

namespace RiscvVm.Proofs
open Sv39

def accessOf : AccessType → Access
  | .fetch => .fetch
  | .load => .load
  | .store => .store

/-- The mode a walk runs in, for an effective privilege of U or S. -/
def modeOf (cpu : Cpu) (priv : BitVec 8) : Mode :=
  { user := decide (priv = uMode)
    sum := (cpu.csrs csrMstatus).getLsbD 18
    mxr := (cpu.csrs csrMstatus).getLsbD 19 }

def rootOf (cpu : Cpu) : BitVec 44 := (cpu.csrs csrSatp).extractLsb' 0 44

theorem upper_bits_iff (va : BitVec 64) : checkUpperBits va = true ↔ Canonical va := by
  have hup : ∀ i, 39 ≤ i → (va >>> 39).getLsbD (i - 39) = va.getLsbD i := by
    intro i hi
    rw [BitVec.getLsbD_ushiftRight, Nat.add_sub_cancel' hi]
  have hones : ∀ i, 39 ≤ i → i < 64 → (0x1FFFFFF#64).getLsbD (i - 39) = true := by
    intro i hi hlt
    have h := BitVec.getLsbD_ofNat 64 (2 ^ 25 - 1) (i - 39)
    rw [Nat.testBit_two_pow_sub_one] at h
    simpa [show i - 39 < 64 by omega, show i - 39 < 25 by omega] using h
  have hhigh : ∀ i, 25 ≤ i → (0x1FFFFFF#64).getLsbD i = false := by
    intro i hi
    have h := BitVec.getLsbD_ofNat 64 (2 ^ 25 - 1) i
    rw [Nat.testBit_two_pow_sub_one] at h
    simpa [show ¬ i < 25 by omega] using h
  constructor
  · intro h i hi hlt
    rw [← hup i hi]
    cases hs : va.getLsbD 38 with
    | false =>
      have hz : va >>> 39 = 0 := by
        simpa [checkUpperBits, hs, -BitVec.getLsbD_eq_getElem] using h
      rw [hz]
      exact BitVec.getLsbD_zero
    | true =>
      have hz : va >>> 39 = 0x1FFFFFF#64 := by
        simpa [checkUpperBits, hs, -BitVec.getLsbD_eq_getElem] using h
      rw [hz, hones i hi hlt]
  · intro h
    cases hs : va.getLsbD 38 with
    | false =>
      have hz : va >>> 39 = 0#64 := by
        apply BitVec.eq_of_getLsbD_eq
        intro i _
        rw [BitVec.getLsbD_ushiftRight, BitVec.getLsbD_zero]
        by_cases hi : 39 + i < 64
        · rw [h (39 + i) (by omega) hi, hs]
        · exact BitVec.getLsbD_of_ge _ _ (by omega)
      simp [checkUpperBits, hs, hz, -BitVec.getLsbD_eq_getElem]
    | true =>
      have hz : va >>> 39 = 0x1FFFFFF#64 := by
        apply BitVec.eq_of_getLsbD_eq
        intro i _
        rw [BitVec.getLsbD_ushiftRight]
        by_cases hi : 39 + i < 64
        · have ho := hones (39 + i) (by omega) hi
          rw [Nat.add_sub_cancel_left] at ho
          rw [h (39 + i) (by omega) hi, hs, ho]
        · rw [hhigh i (by omega)]
          exact BitVec.getLsbD_of_ge _ _ (by omega)
      simp [checkUpperBits, hs, hz, -BitVec.getLsbD_eq_getElem]

theorem vpn_of_eq (va : BitVec 64) {i : Nat} (hi : i ≤ 2) :
    vpnOf va i = (vpn va i).setWidth 64 := by
  match i with
  | 0 => exact Bits.shift_and_mask va 12 9
  | 1 => exact Bits.shift_and_mask va 21 9
  | 2 => exact Bits.shift_and_mask va 30 9

theorem pte_ppn0 (pte : BitVec 64) : ptePpn pte 0 = (ppn0 pte).setWidth 64 :=
  Bits.shift_and_mask pte 10 9

theorem pte_ppn1 (pte : BitVec 64) : ptePpn pte 1 = (ppn1 pte).setWidth 64 :=
  Bits.shift_and_mask pte 19 9

theorem pte_ppn2 (pte : BitVec 64) : ptePpn pte 2 = (ppn2 pte).setWidth 64 :=
  Bits.shift_and_mask pte 28 26

/-- The next table is the page the whole PPN names. -/
theorem next_table_eq (pte : BitVec 64) :
    ((ptePpn pte 2 <<< 18) ||| (ptePpn pte 1 <<< 9) ||| ptePpn pte 0) <<< 12 =
      pageAddr (ppn pte) := by
  rw [pte_ppn0, pte_ppn1, pte_ppn2]
  apply BitVec.eq_of_getLsbD_eq
  intro i hi
  simp only [ppn0, ppn1, ppn2, pageAddr, ppn, BitVec.getLsbD_or, BitVec.getLsbD_shiftLeft,
    BitVec.getLsbD_setWidth, BitVec.getLsbD_append, BitVec.getLsbD_extractLsb',
    BitVec.getLsbD_zero]
  grind

theorem root_table_eq (cpu : Cpu) :
    (cpu.csrs csrSatp &&& ((1#64 <<< 44) - 1)) <<< 12 = pageAddr (rootOf cpu) := by
  have hm := Bits.shift_and_mask (cpu.csrs csrSatp) 0 44
  rw [BitVec.ushiftRight_zero] at hm
  have he : (1#64 <<< 44) - 1 = BitVec.ofNat 64 (2 ^ 44 - 1) := by decide
  rw [he, hm]
  apply BitVec.eq_of_getLsbD_eq
  intro i hi
  simp only [pageAddr, rootOf, BitVec.getLsbD_shiftLeft, BitVec.getLsbD_setWidth,
    BitVec.getLsbD_append, BitVec.getLsbD_extractLsb', BitVec.getLsbD_zero]
  grind

/-- Fields shifted into place and or-ed are the fields side by side. -/
theorem fields_append (x : BitVec 26) (y z : BitVec 9) (o : BitVec 12) :
    (x.setWidth 64 <<< 30) ||| (y.setWidth 64 <<< 21) ||| (z.setWidth 64 <<< 12) |||
      o.setWidth 64 = (x ++ y ++ z ++ o).setWidth 64 := by
  apply BitVec.eq_of_getLsbD_eq
  intro i hi
  simp only [BitVec.getLsbD_or, BitVec.getLsbD_shiftLeft, BitVec.getLsbD_setWidth,
    BitVec.getLsbD_append]
  grind

theorem page_offset_eq (va : BitVec 64) : va &&& 0xFFF = (pageOffset va).setWidth 64 := by
  have hm := Bits.shift_and_mask va 0 12
  rwa [BitVec.ushiftRight_zero] at hm

theorem physical_address_eq (pte va : BitVec 64) {level : Nat} (hl : level ≤ 2) :
    getPhysicalAddress (ptePpn pte) (vpnOf va) (va &&& 0xFFF) level = physical pte va level := by
  unfold getPhysicalAddress physical
  rw [page_offset_eq, pte_ppn0, pte_ppn1, pte_ppn2, vpn_of_eq va (show 0 ≤ 2 by omega),
    vpn_of_eq va (show 1 ≤ 2 by omega), ← fields_append]
  match level with
  | 0 => rfl
  | 1 => rfl
  | 2 => rfl

theorem reserved_eq_zero_iff (pte : BitVec 64) : pte >>> 54 = 0 ↔ reserved pte = 0 := by
  constructor
  · intro h
    apply BitVec.eq_of_getLsbD_eq
    intro i hi
    have hb := congrArg (fun v => v.getLsbD i) h
    simp only [BitVec.getLsbD_ushiftRight] at hb
    rw [reserved, BitVec.getLsbD_extractLsb', hb]
    simp
  · intro h
    apply BitVec.eq_of_getLsbD_eq
    intro i hi
    have hb := congrArg (fun v => v.getLsbD i) h
    simp only [reserved, BitVec.getLsbD_extractLsb'] at hb
    rw [BitVec.getLsbD_ushiftRight]
    by_cases h10 : i < 10
    · simpa [h10] using hb
    · rw [BitVec.getLsbD_of_ge _ _ (by omega)]
      exact BitVec.getLsbD_zero.symm

theorem set_width_eq_zero_iff {n : Nat} (hn : n ≤ 64) (x : BitVec n) :
    x.setWidth 64 = 0 ↔ x = 0 := by
  constructor
  · intro h
    apply BitVec.eq_of_toNat_eq
    have := congrArg BitVec.toNat h
    rw [BitVec.toNat_setWidth, Nat.mod_eq_of_lt] at this
    · simpa using this
    · exact Nat.lt_of_lt_of_le x.isLt (Nat.pow_le_pow_right (by omega) hn)
  · intro h
    rw [h]
    simp

/-- The bit an access needs in the leaf. -/
def AccessBits (cpu : Cpu) (acc : AccessType) (pte : BitVec 64) : Prop :=
  (acc = .load → readable pte = true ∨
    ((cpu.csrs csrMstatus).getLsbD 19 = true ∧ executable pte = true)) ∧
  (acc = .store → writable pte = true) ∧ (acc = .fetch → executable pte = true)

/-- What the walk asks of a leaf, at any effective privilege. -/
def LeafOk (cpu : Cpu) (acc : AccessType) (priv : BitVec 8) (pte : BitVec 64) : Prop :=
  checkPriviledge cpu priv (user pte) acc = true ∧ AccessBits cpu acc pte

theorem or_one_shift_self (x : BitVec 64) {n : Nat} (hn : n < 64) (h : x.getLsbD n = true) :
    x ||| (1#64 <<< n) = x := by
  apply BitVec.eq_of_getLsbD_eq
  intro i hi
  rw [BitVec.getLsbD_or, Bits.getLsbD_one_shift n i hn]
  by_cases hin : i = n
  · rw [hin, h]
    rfl
  · simp [hin]

/-- Setting only the bits that are missing sets the bits. -/
theorem updated_eq_mark (acc : AccessType) (pte : BitVec 64) :
    (if acc = .store ∧ !pte.getLsbD 7 then
        (if !pte.getLsbD 6 then pte ||| (1#64 <<< 6) else pte) ||| (1#64 <<< 7)
      else if !pte.getLsbD 6 then pte ||| (1#64 <<< 6) else pte) = mark (accessOf acc) pte := by
  have ha : (if !pte.getLsbD 6 then pte ||| (1#64 <<< 6) else pte) = pte ||| (1#64 <<< 6) := by
    cases h : pte.getLsbD 6 with
    | true => exact (or_one_shift_self pte (by omega) h).symm
    | false => rfl
  rw [ha]
  cases acc with
  | load => simp [mark, accessOf]
  | fetch => simp [mark, accessOf]
  | store =>
    cases h : pte.getLsbD 7 with
    | false => simp [mark, accessOf]
    | true =>
      have hd : (pte ||| (1#64 <<< 6)).getLsbD 7 = true := by rw [BitVec.getLsbD_or, h]; rfl
      simpa [mark, accessOf] using (or_one_shift_self _ (by omega) hd).symm

theorem well_formed_iff (pte : BitVec 64) : WellFormed pte ↔ ¬ pte >>> 54 ≠ 0 ∧
    ¬ ((pte.getLsbD 2 = true ∧ (!pte.getLsbD 1) = true) ∨ (!pte.getLsbD 0) = true) := by
  have hr := reserved_eq_zero_iff pte
  constructor
  · rintro ⟨hv, hres, hrw⟩
    refine ⟨fun h => h (hr.mpr hres), ?_⟩
    unfold valid writable readable at *
    cases h2 : pte.getLsbD 2 <;> cases h1 : pte.getLsbD 1 <;> simp_all only [] <;> simp_all
  · rintro ⟨hres, hbad⟩
    refine ⟨?_, hr.mp (Decidable.not_not.mp hres), ?_⟩
    · unfold valid
      cases h0 : pte.getLsbD 0 <;> simp_all
    · unfold writable readable
      cases h2 : pte.getLsbD 2 <;> cases h1 : pte.getLsbD 1 <;> simp_all

theorem leaf_iff (pte : BitVec 64) :
    Leaf pte ↔ ¬ ((!pte.getLsbD 1) = true ∧ (!pte.getLsbD 3) = true) := by
  unfold Leaf readable executable
  cases pte.getLsbD 1 <;> cases pte.getLsbD 3 <;> simp

theorem aligned_iff (pte : BitVec 64) {i : Nat} (hi : i ≤ 2) : Aligned pte i ↔
    ¬ (i = 2 ∧ (ptePpn pte 1 ≠ 0 ∨ ptePpn pte 0 ≠ 0)) ∧ ¬ (i = 1 ∧ ptePpn pte 0 ≠ 0) := by
  have h0 : ptePpn pte 0 = 0 ↔ ppn0 pte = 0 := by
    rw [pte_ppn0]
    exact set_width_eq_zero_iff (by omega) _
  have h1 : ptePpn pte 1 = 0 ↔ ppn1 pte = 0 := by
    rw [pte_ppn1]
    exact set_width_eq_zero_iff (by omega) _
  rw [Ne, Ne, h0, h1]
  constructor
  · rintro ⟨hlow, hmid⟩
    refine ⟨fun ⟨h2, h⟩ => ?_, fun ⟨h1, h⟩ => h (hlow (by omega))⟩
    rcases h with h | h
    · exact h (hmid (by omega))
    · exact h (hlow (by omega))
  · rintro ⟨hgiga, hmega⟩
    refine ⟨fun h1 => Decidable.byContradiction fun h => ?_,
      fun h2 => Decidable.byContradiction fun h => ?_⟩
    · rcases Nat.lt_or_ge i 2 with hlt | hge
      · exact hmega ⟨by omega, h⟩
      · exact hgiga ⟨by omega, Or.inr h⟩
    · exact hgiga ⟨by omega, Or.inl h⟩

theorem access_bits_iff (cpu : Cpu) (acc : AccessType) (pte : BitVec 64) :
    AccessBits cpu acc pte ↔ ¬ (acc = .store ∧ (!pte.getLsbD 2) = true) ∧
      ¬ (acc = .load ∧ (!pte.getLsbD 1) = true ∧
        (!((cpu.csrs csrMstatus).getLsbD 19 && pte.getLsbD 3)) = true) ∧
      ¬ (acc = .fetch ∧ (!pte.getLsbD 3) = true) := by
  unfold AccessBits readable writable executable
  cases acc <;> cases pte.getLsbD 1 <;> cases pte.getLsbD 2 <;> cases pte.getLsbD 3 <;>
    cases (cpu.csrs csrMstatus).getLsbD 19 <;> simp

/-- What each outcome of one turn of the walk says about the entry. -/
def EntryMeaning (cpu : Cpu) (va : BitVec 64) (acc : AccessType) (priv : BitVec 8) (i : Nat)
    (pte : BitVec 64) : WalkEntry → Prop
  | .fault => ¬ (WellFormed pte ∧
      ((¬ Leaf pte ∧ i ≠ 0) ∨ (Leaf pte ∧ Aligned pte i ∧ LeafOk cpu acc priv pte)))
  | .table next => WellFormed pte ∧ ¬ Leaf pte ∧ i ≠ 0 ∧ next = pageAddr (ppn pte)
  | .leaf u p => WellFormed pte ∧ Leaf pte ∧ Aligned pte i ∧ LeafOk cpu acc priv pte ∧
      u = mark (accessOf acc) pte ∧ p = physical pte va i

theorem walk_entry_meaning (cpu : Cpu) (va : BitVec 64) (acc : AccessType) (priv : BitVec 8)
    {i : Nat} (hi : i ≤ 2) (pte : BitVec 64) :
    EntryMeaning cpu va acc priv i pte (walkEntry cpu va acc priv i pte) := by
  unfold walkEntry
  dsimp only
  rw [updated_eq_mark, physical_address_eq pte va hi, next_table_eq]
  have hwf := well_formed_iff pte
  have hl := leaf_iff pte
  have ha := aligned_iff pte hi
  have hb := access_bits_iff cpu acc pte
  by_cases hres : pte >>> 54 ≠ 0
  · rw [if_pos hres]
    exact fun h => (hwf.mp h.1).1 hres
  rw [if_neg hres]
  by_cases hbad : (pte.getLsbD 2 = true ∧ (!pte.getLsbD 1) = true) ∨ (!pte.getLsbD 0) = true
  · rw [if_pos hbad]
    exact fun h => (hwf.mp h.1).2 hbad
  rw [if_neg hbad]
  have hok : WellFormed pte := hwf.mpr ⟨hres, hbad⟩
  by_cases hptr : (!pte.getLsbD 1) = true ∧ (!pte.getLsbD 3) = true
  · rw [if_pos hptr]
    have hnl : ¬ Leaf pte := fun h => hl.mp h hptr
    split
    · rename_i h0
      rintro ⟨_, ⟨_, hne⟩ | ⟨hleaf, _⟩⟩
      · exact hne h0
      · exact hnl hleaf
    · exact ⟨hok, hnl, ‹_›, rfl⟩
  rw [if_neg hptr]
  have hleaf : Leaf pte := hl.mpr hptr
  have hfault : ¬ (Aligned pte i ∧ LeafOk cpu acc priv pte) →
      EntryMeaning cpu va acc priv i pte .fault := by
    rintro hno ⟨_, ⟨hnl, _⟩ | ⟨_, hyes⟩⟩
    · exact hnl hleaf
    · exact hno hyes
  split
  · exact hfault fun h => (ha.mp h.1).1 ‹_›
  split
  · exact hfault fun h => (ha.mp h.1).2 ‹_›
  have halign : Aligned pte i := ha.mpr ⟨‹_›, ‹_›⟩
  split
  · rename_i hc
    refine hfault fun h => ?_
    rw [show checkPriviledge cpu priv (pte.getLsbD 4) acc = true from h.2.1] at hc
    cases hc
  rename_i hc
  split
  · exact hfault fun h => (hb.mp h.2.2).1 ‹_›
  split
  · exact hfault fun h => (hb.mp h.2.2).2.1 ‹_›
  split
  · exact hfault fun h => (hb.mp h.2.2).2.2 ‹_›
  · refine ⟨hok, hleaf, halign, ⟨?_, hb.mpr ⟨‹_›, ‹_›, ‹_›⟩⟩, rfl, rfl⟩
    show checkPriviledge cpu priv (pte.getLsbD 4) acc = true
    simpa using hc

/-- The page a table starts on: its low twelve bits are zero. -/
theorem page_addr_low (page : BitVec 44) : (pageAddr page).toNat % 4096 = 0 := by
  have hlt := page.isLt
  have happ : (page ++ 0#12).toNat = page.toNat * 4096 := by
    rw [BitVec.toNat_append, BitVec.toNat_ofNat, Nat.zero_mod, Nat.or_zero, Nat.shiftLeft_eq]
  rw [pageAddr, BitVec.toNat_setWidth, happ]
  omega

theorem pte_addr_aligned (page : BitVec 44) (va : BitVec 64) (i : Nat) :
    (pteAddr (pageAddr page) va i).toNat % 8 = 0 := by
  have hp := page_addr_low page
  have hv := (vpn va i).isLt
  have h8 : (8 : BitVec 64).toNat = 8 := rfl
  rw [pteAddr, BitVec.toNat_add, BitVec.toNat_mul, BitVec.toNat_setWidth, h8]
  omega

/-- The entries of a walk that starts on a page lie at multiples of eight. -/
theorem walk_addr_aligned {read : BitVec 64 → BitVec 64} {va addr table : BitVec 64}
    {i level : Nat} (h : Walk read va i table level addr)
    (ht : ∃ page, table = pageAddr page) : addr.toNat % 8 = 0 := by
  induction h with
  | leaf i table ok stop =>
    obtain ⟨page, rfl⟩ := ht
    exact pte_addr_aligned page va i
  | next i table level addr ok go rest ih => exact ih ⟨_, rfl⟩

theorem walk_leaf {read : BitVec 64 → BitVec 64} {va addr table : BitVec 64}
    {i level : Nat} (h : Walk read va i table level addr) :
    WellFormed (read addr) ∧ Leaf (read addr) := by
  induction h with
  | leaf i table ok stop => exact ⟨ok, stop⟩
  | next i table level addr ok go rest ih => exact ih

/-- The bus after the walk has written back the leaf it found at `addr`. -/
def writeBack (bus : Bus) (addr : BitVec 64) (acc : AccessType) : Bus :=
  let pte := vmBusRead64 bus addr
  if mark (accessOf acc) pte ≠ pte then vmBusWrite64 bus addr (mark (accessOf acc) pte) else bus

/-- The walk of the page table succeeds exactly with the leaf of an Sv39 walk
that the code's own checks let through. -/
theorem sv39_loop_ok (cpu : Cpu) (bus : Bus) (va : BitVec 64) (acc : AccessType)
    (priv : BitVec 8) {i : Nat} (hi : i ≤ 2) (table : BitVec 64) (bus' : Bus) (p : BitVec 64) :
    sv39Loop cpu bus va acc priv i table = (bus', .ok p) ↔
      ∃ level addr, Walk (vmBusRead64 bus) va i table level addr ∧
        Aligned (vmBusRead64 bus addr) level ∧ LeafOk cpu acc priv (vmBusRead64 bus addr) ∧
        p = physical (vmBusRead64 bus addr) va level ∧ bus' = writeBack bus addr acc := by
  induction i generalizing table with
  | zero =>
    have hm := walk_entry_meaning cpu va acc priv hi (vmBusRead64 bus (pteAddr table va 0))
    unfold sv39Loop
    rw [vpn_of_eq va hi, show table + (vpn va 0).setWidth 64 * 8 = pteAddr table va 0 from rfl]
    dsimp only
    split
    · rename_i he
      rw [he] at hm
      refine ⟨fun h => (by cases h), ?_⟩
      rintro ⟨level, addr, hw, ha, hok, _⟩
      cases hw with
      | leaf _ _ ok stop => exact absurd ⟨ok, Or.inr ⟨stop, ha, hok⟩⟩ hm
    · rename_i he
      rw [he] at hm
      exact absurd rfl hm.2.2.1
    · rename_i u q he
      rw [he] at hm
      obtain ⟨ok, stop, ha, hok, rfl, rfl⟩ := hm
      constructor
      · intro h
        cases h
        exact ⟨0, _, .leaf 0 table ok stop, ha, hok, rfl, rfl⟩
      · rintro ⟨level, addr, hw, _, _, rfl, rfl⟩
        cases hw with
        | leaf => rfl
  | succ i ih =>
    have hm := walk_entry_meaning cpu va acc priv hi (vmBusRead64 bus (pteAddr table va (i + 1)))
    unfold sv39Loop
    rw [vpn_of_eq va hi,
      show table + (vpn va (i + 1)).setWidth 64 * 8 = pteAddr table va (i + 1) from rfl]
    dsimp only
    split
    · rename_i he
      rw [he] at hm
      refine ⟨fun h => (by cases h), ?_⟩
      rintro ⟨level, addr, hw, ha, hok, _⟩
      cases hw with
      | leaf _ _ ok stop => exact absurd ⟨ok, Or.inr ⟨stop, ha, hok⟩⟩ hm
      | next _ _ _ _ ok go rest => exact absurd ⟨ok, Or.inl ⟨go, by omega⟩⟩ hm
    · rename_i next he
      rw [he] at hm
      obtain ⟨ok, go, _, rfl⟩ := hm
      rw [ih (by omega)]
      constructor
      · rintro ⟨level, addr, hw, rest⟩
        exact ⟨level, addr, .next i table level addr ok go hw, rest⟩
      · rintro ⟨level, addr, hw, rest⟩
        cases hw with
        | leaf _ _ _ stop => exact absurd stop go
        | next _ _ _ _ _ _ hw => exact ⟨level, addr, hw, rest⟩
    · rename_i u q he
      rw [he] at hm
      obtain ⟨ok, stop, ha, hok, rfl, rfl⟩ := hm
      constructor
      · intro h
        cases h
        exact ⟨i + 1, _, .leaf (i + 1) table ok stop, ha, hok, rfl, rfl⟩
      · rintro ⟨level, addr, hw, _, _, rfl, rfl⟩
        cases hw with
        | leaf => rfl
        | next _ _ _ _ _ go => exact absurd stop go

/-- A walk that does not succeed returns the fault of its access and has
written nothing. -/
theorem sv39_loop_error (cpu : Cpu) (bus : Bus) (va : BitVec 64) (acc : AccessType)
    (priv : BitVec 8) (i : Nat) (table : BitVec 64) :
    (∃ bus' p, sv39Loop cpu bus va acc priv i table = (bus', .ok p)) ∨
      sv39Loop cpu bus va acc priv i table = (bus, .error (accessTypeToError acc)) := by
  induction i generalizing table with
  | zero =>
    unfold sv39Loop
    dsimp only
    split
    · exact Or.inr rfl
    · exact Or.inr rfl
    · exact Or.inl ⟨_, _, rfl⟩
  | succ i ih =>
    unfold sv39Loop
    dsimp only
    split
    · exact Or.inr rfl
    · exact ih _
    · exact Or.inl ⟨_, _, rfl⟩

/-- A word that is a leaf lies in RAM, or is one of the two 64-bit registers of
the timer: everything else reads as less than two. -/
theorem leaf_place {bus : Bus} {addr : BitVec 64} (ha : addr.toNat % 8 = 0)
    (h : Leaf (vmBusRead64 bus addr)) :
    InRam addr 8 ∨
      (addr = timerBase + timerMtimecmp ∨ addr = timerBase + timerMtime) := by
  have hzero : ¬ Leaf 0#64 := by unfold Leaf; decide
  by_cases hr : addrInRange addr ramBase ramSize = true
  · exact Or.inl (InRam.of_aligned ((ram_range_iff addr).mp hr) (Or.inr rfl) ha)
  · unfold vmBusRead64 at h
    rw [if_neg hr] at h
    split at h
    · exact absurd h hzero
    split at h
    · unfold timerRead64 at h
      split at h
      · exfalso
        revert h
        unfold Leaf readable executable
        rw [BitVec.getLsbD_setWidth, BitVec.getLsbD_setWidth, BitVec.getLsbD_and, BitVec.getLsbD_and]
        simp
      split at h
      · exact Or.inr (Or.inl (timer_addr ‹_›))
      split at h
      · exact Or.inr (Or.inr (timer_addr ‹_›))
      · exact absurd h hzero
    · exact absurd h hzero

/-- A leaf entry holds what is written to it. -/
theorem leaf_write_read {bus : Bus} {addr : BitVec 64} (ha : addr.toNat % 8 = 0)
    (h : Leaf (vmBusRead64 bus addr)) (v : BitVec 64) :
    vmBusRead64 (vmBusWrite64 bus addr v) addr = v := by
  rcases leaf_place ha h with hram | rfl | rfl
  · rw [bus_write64_in_ram bus v hram, bus_read64_in_ram _ hram]
    exact ByteMap.read_write bus.ram.mem _ v (by omega) rfl
  · rw [mtimecmp_write64, mtimecmp_read64]
  · rw [mtime_write64, mtime_read64]

/-- Writing back a leaf entry unchanged changes nothing. -/
theorem leaf_write_same {bus : Bus} {addr : BitVec 64} (ha : addr.toNat % 8 = 0)
    (h : Leaf (vmBusRead64 bus addr)) :
    vmBusWrite64 bus addr (vmBusRead64 bus addr) = bus := by
  rcases leaf_place ha h with hram | rfl | rfl
  · rw [bus_write64_in_ram bus _ hram, bus_read64_in_ram bus hram,
      ByteMap.write_read bus.ram.mem _ (by omega) (by omega)]
  · rw [mtimecmp_read64, mtimecmp_write64]
  · rw [mtime_read64, mtime_write64]

theorem write_back_eq {bus : Bus} {addr : BitVec 64} (ha : addr.toNat % 8 = 0)
    (h : Leaf (vmBusRead64 bus addr)) (acc : AccessType) :
    writeBack bus addr acc = vmBusWrite64 bus addr (mark (accessOf acc) (vmBusRead64 bus addr)) := by
  unfold writeBack
  dsimp only
  split
  · rfl
  · rename_i he
    rw [Decidable.not_not.mp he, leaf_write_same ha h]

/-- `bus'` is `bus` with the word at `addr` set to `value`, and no byte of RAM,
register of the timer or state of the UART besides it is different. -/
structure WordSet (bus bus' : Bus) (addr value : BitVec 64) : Prop where
  written : bus' = vmBusWrite64 bus addr value
  word : vmBusRead64 bus' addr = value
  ram : ∀ x, 8 ≤ (x - addr).toNat → bus'.ram.mem (x - memBase) = bus.ram.mem (x - memBase)
  msip : bus'.timer.msip = bus.timer.msip
  mtimecmp : addr ≠ timerBase + timerMtimecmp → bus'.timer.mtimecmp = bus.timer.mtimecmp
  mtime : addr ≠ timerBase + timerMtime → bus'.timer.mtime = bus.timer.mtime
  uart : bus'.uart = bus.uart
  transmitted : bus'.transmitted = bus.transmitted

theorem sub_sub_sub_cancel (x y b : BitVec 64) : x - b - (y - b) = x - y := by
  apply BitVec.eq_of_toNat_eq
  simp only [BitVec.toNat_sub]
  omega

theorem word_set_of_leaf {bus : Bus} {addr : BitVec 64} (ha : addr.toNat % 8 = 0)
    (h : Leaf (vmBusRead64 bus addr)) (v : BitVec 64) :
    WordSet bus (vmBusWrite64 bus addr v) addr v := by
  have hread := leaf_write_read ha h v
  rcases leaf_place ha h with hram | rfl | rfl
  · have hw := bus_write64_in_ram bus v hram
    refine ⟨rfl, hread, fun x hx => ?_, ?_, fun _ => ?_, fun _ => ?_, ?_, ?_⟩
    · rw [hw]
      refine ByteMap.write_outside bus.ram.mem _ v (by omega) ?_
      rwa [sub_sub_sub_cancel]
    all_goals rw [hw]
  · exact ⟨rfl, hread, fun _ _ => rfl, rfl, fun hne => absurd rfl hne, fun _ => rfl, rfl, rfl⟩
  · exact ⟨rfl, hread, fun _ _ => rfl, rfl, fun _ => rfl, fun hne => absurd rfl hne, rfl, rfl⟩

theorem leaf_ok_iff_permits (cpu : Cpu) (acc : AccessType) {priv : BitVec 8}
    (hp : priv = uMode ∨ priv = sMode) (pte : BitVec 64) :
    LeafOk cpu acc priv pte ↔ Permits (modeOf cpu priv) (accessOf acc) pte := by
  have hsu : sMode ≠ uMode := by decide
  unfold LeafOk AccessBits
  constructor
  · rintro ⟨hc, hl, hs, hf⟩
    refine ⟨fun h => ?_, fun h hu => ?_, fun h => ?_, fun h => ?_, fun h => ?_⟩
    · have hu : priv = uMode := of_decide_eq_true h
      cases hb : user pte with
      | true => rfl
      | false => simp [checkPriviledge, hu, hb] at hc
    · have hu' : priv = sMode := hp.resolve_left (of_decide_eq_false h)
      rw [hu', hu] at hc
      cases acc with
      | fetch => simp [checkPriviledge, hsu] at hc
      | load =>
        refine ⟨by simp [accessOf], ?_⟩
        simpa [checkPriviledge, hsu, modeOf] using hc
      | store =>
        refine ⟨by simp [accessOf], ?_⟩
        simpa [checkPriviledge, hsu, modeOf] using hc
    · cases acc <;> simp [accessOf] at h
      exact hl rfl
    · cases acc <;> simp [accessOf] at h
      exact hs rfl
    · cases acc <;> simp [accessOf] at h
      exact hf rfl
  · rintro ⟨hu, hs, hl, hst, hf⟩
    refine ⟨?_, fun h => hl (by rw [h]; rfl), fun h => hst (by rw [h]; rfl), fun h => hf (by rw [h]; rfl)⟩
    rcases hp with rfl | rfl
    · simp [checkPriviledge, hu (by simp [modeOf]), hsu.symm]
    · cases hb : user pte with
      | false => simp [checkPriviledge, hsu]
      | true =>
        obtain ⟨hna, hsum⟩ := hs (by simp [modeOf, hsu]) hb
        have hnf : acc ≠ .fetch := fun h => hna (by rw [h]; rfl)
        have hsum' : (cpu.csrs csrMstatus).getLsbD 18 = true := hsum
        simp only [checkPriviledge, hsum', hsu, hnf]
        simp

/-- A walk that succeeds has set the word of its leaf. -/
theorem sv39_loop_word {cpu : Cpu} {bus bus' : Bus} {va p : BitVec 64} {acc : AccessType}
    {priv : BitVec 8} {page : BitVec 44}
    (h : sv39Loop cpu bus va acc priv 2 (pageAddr page) = (bus', .ok p)) :
    ∃ level addr, Walk (vmBusRead64 bus) va 2 (pageAddr page) level addr ∧
      Aligned (vmBusRead64 bus addr) level ∧ LeafOk cpu acc priv (vmBusRead64 bus addr) ∧
      p = physical (vmBusRead64 bus addr) va level ∧
      WordSet bus bus' addr (mark (accessOf acc) (vmBusRead64 bus addr)) := by
  rw [sv39_loop_ok cpu bus va acc _ (Nat.le_refl 2)] at h
  obtain ⟨level, addr, hw, hal, hok, hp, hb⟩ := h
  have ha := walk_addr_aligned hw ⟨_, rfl⟩
  have hl := (walk_leaf hw).2
  rw [hb, write_back_eq ha hl]
  exact ⟨level, addr, hw, hal, hok, hp, word_set_of_leaf ha hl _⟩

/-- The leaf at `addr` translates `va` in this state of the machine. -/
def Maps (cpu : Cpu) (bus : Bus) (va : BitVec 64) (acc : AccessType) (level : Nat)
    (addr : BitVec 64) : Prop :=
  Translates (vmBusRead64 bus) (modeOf cpu (effectivePriviledge cpu acc)) (rootOf cpu) va
    (accessOf acc) level addr

/-- An address is translated by itself, by the walk, or not at all. -/
theorem translate_cases (cpu : Cpu) (bus : Bus) (va : BitVec 64) (acc : AccessType) :
    ((satpMode cpu = 0 ∨ effectivePriviledge cpu acc = mMode) ∧
      translateAddress cpu bus va acc = (bus, .ok va)) ∨
    (satpMode cpu = 8 ∧ effectivePriviledge cpu acc ≠ mMode ∧ Canonical va ∧
      translateAddress cpu bus va acc =
        sv39Loop cpu bus va acc (effectivePriviledge cpu acc) 2 (pageAddr (rootOf cpu))) ∨
    (satpMode cpu ≠ 0 ∧ effectivePriviledge cpu acc ≠ mMode ∧
      (satpMode cpu = 8 → ¬ Canonical va) ∧
      translateAddress cpu bus va acc = (bus, .error (accessTypeToError acc))) := by
  unfold translateAddress
  dsimp only
  split
  · exact Or.inl ⟨‹_›, rfl⟩
  rename_i hno
  obtain ⟨h0, hm⟩ := not_or.mp hno
  split
  · rename_i h8
    unfold sv39
    dsimp only
    rw [root_table_eq]
    by_cases hc : checkUpperBits va = true
    · rw [hc]
      exact Or.inr (Or.inl ⟨h8, hm, (upper_bits_iff va).mp hc, rfl⟩)
    · rw [Bool.not_eq_true] at hc
      rw [hc]
      refine Or.inr (Or.inr ⟨h0, hm, fun _ hcan => ?_, rfl⟩)
      rw [(upper_bits_iff va).mpr hcan] at hc
      cases hc
  · exact Or.inr (Or.inr ⟨h0, hm, fun h => absurd h ‹_›, rfl⟩)

theorem translate_machine {cpu : Cpu} {acc : AccessType} (h : effectivePriviledge cpu acc = mMode)
    (bus : Bus) (va : BitVec 64) : translateAddress cpu bus va acc = (bus, .ok va) :=
  if_pos (Or.inr h)

/-- A translation that fails returns the fault of its access and has written
nothing. -/
theorem translate_error {cpu : Cpu} {bus bus' : Bus} {va e : BitVec 64} {acc : AccessType}
    (h : translateAddress cpu bus va acc = (bus', .error e)) :
    bus' = bus ∧ e = accessTypeToError acc := by
  rcases translate_cases cpu bus va acc with ⟨_, he⟩ | ⟨_, _, _, he⟩ | ⟨_, _, _, he⟩
  · rw [he] at h
    cases h
  · rw [he] at h
    rcases sv39_loop_error cpu bus va acc (effectivePriviledge cpu acc) 2 (pageAddr (rootOf cpu))
      with ⟨b, p, hok⟩ | herr
    · rw [hok] at h
      cases h
    · rw [herr] at h
      cases h
      exact ⟨rfl, rfl⟩
  · rw [he] at h
    cases h
    exact ⟨rfl, rfl⟩

/-- A translation that succeeds has set at most one word, a leaf entry of the
page table. -/
theorem translate_ok {cpu : Cpu} {bus bus' : Bus} {va p : BitVec 64} {acc : AccessType}
    (h : translateAddress cpu bus va acc = (bus', .ok p)) :
    (bus' = bus ∧ p = va) ∨
      ∃ level addr, Walk (vmBusRead64 bus) va 2 (pageAddr (rootOf cpu)) level addr ∧
        addr.toNat % 8 = 0 ∧ Leaf (vmBusRead64 bus addr) ∧
        p = physical (vmBusRead64 bus addr) va level ∧
        WordSet bus bus' addr (mark (accessOf acc) (vmBusRead64 bus addr)) := by
  rcases translate_cases cpu bus va acc with ⟨_, he⟩ | ⟨_, _, _, he⟩ | ⟨_, _, _, he⟩
  · rw [he] at h
    cases h
    exact Or.inl ⟨rfl, rfl⟩
  · rw [he] at h
    obtain ⟨level, addr, hw, _, _, hp, hset⟩ := sv39_loop_word h
    exact Or.inr ⟨level, addr, hw, walk_addr_aligned hw ⟨_, rfl⟩, (walk_leaf hw).2, hp, hset⟩
  · rw [he] at h
    cases h

/-- Under Sv39, at an effective privilege of U or S, an address is translated
exactly when the architecture's walk finds a leaf that permits the access. The
physical address is that of the leaf and the machine differs in the leaf's
Accessed and Dirty bits only; otherwise the access faults and nothing has
changed. -/
theorem translate_address_sv39 (cpu : Cpu) (bus : Bus) (va : BitVec 64) (acc : AccessType)
    (hmode : satpMode cpu = 8)
    (hpriv : effectivePriviledge cpu acc = uMode ∨ effectivePriviledge cpu acc = sMode) :
    ((∃ bus' p, translateAddress cpu bus va acc = (bus', .ok p)) ↔
      ∃ level addr, Maps cpu bus va acc level addr) ∧
    (∀ bus' p, translateAddress cpu bus va acc = (bus', .ok p) →
      ∃ level addr, Maps cpu bus va acc level addr ∧
        p = physical (vmBusRead64 bus addr) va level ∧
        WordSet bus bus' addr (mark (accessOf acc) (vmBusRead64 bus addr))) ∧
    (∀ bus' e, translateAddress cpu bus va acc = (bus', .error e) →
      bus' = bus ∧ e = pageFault (accessOf acc)) := by
  have hm : effectivePriviledge cpu acc ≠ mMode := by
    rcases hpriv with h | h <;> rw [h] <;> decide
  have h0 : satpMode cpu ≠ 0 := by
    rw [hmode]
    decide
  have hsound : ∀ bus' p, translateAddress cpu bus va acc = (bus', .ok p) →
      ∃ level addr, Maps cpu bus va acc level addr ∧
        p = physical (vmBusRead64 bus addr) va level ∧
        WordSet bus bus' addr (mark (accessOf acc) (vmBusRead64 bus addr)) := by
    intro bus' p h
    rcases translate_cases cpu bus va acc with ⟨hbare, _⟩ | ⟨_, _, hc, he⟩ | ⟨_, _, _, he⟩
    · exact absurd hbare (not_or.mpr ⟨h0, hm⟩)
    · rw [he] at h
      obtain ⟨level, addr, hw, hal, hok, hp, hset⟩ := sv39_loop_word h
      exact ⟨level, addr, ⟨hc, hw, hal, (leaf_ok_iff_permits cpu acc hpriv _).mp hok⟩, hp, hset⟩
    · rw [he] at h
      cases h
  refine ⟨⟨?_, ?_⟩, hsound, fun bus' e h => ?_⟩
  · rintro ⟨bus', p, h⟩
    obtain ⟨level, addr, hmap, _⟩ := hsound bus' p h
    exact ⟨level, addr, hmap⟩
  · rintro ⟨level, addr, hmap⟩
    rcases translate_cases cpu bus va acc with ⟨_, he⟩ | ⟨_, _, _, he⟩ | ⟨_, _, hc, _⟩
    · exact ⟨_, _, he⟩
    · rw [he]
      refine ⟨_, _, (sv39_loop_ok cpu bus va acc _ (Nat.le_refl 2) _ _ _).mpr
        ⟨level, addr, hmap.walk, hmap.aligned, ?_, rfl, rfl⟩⟩
      exact (leaf_ok_iff_permits cpu acc hpriv _).mpr hmap.permits
    · exact absurd hmap.canonical (hc hmode)
  · obtain ⟨hb, rfl⟩ := translate_error h
    refine ⟨hb, ?_⟩
    cases acc <;> rfl

theorem translated_of_to_option {r : TranslationResult} {p : BitVec 64}
    (h : r.toOption = some p) : r = .ok p := by
  cases r with
  | error e => cases h
  | ok q =>
    cases h
    rfl

/-- A supervisor under Sv39, with its root table one page into RAM. -/
def supervisor : Cpu :=
  { regs := fun _ => 0
    csrs := fun a => if a = csrSatp then 0x8000000000080001 else 0
    pc := 0x80000000
    priviledge := sMode
    reservation := { valid := false, physAddr := 0, size := 0 }
    trapTaken := false
    pcWritten := false }

/-- A root table whose third entry is a gigapage that maps RAM to itself. -/
def gigapage : Bus := busOf (ramOf [(0x1010, 0x2000000F)])

theorem translate_address_sv39_gigapage :
    ∃ level addr, Maps supervisor gigapage 0x80000000 .load
      level addr := by
  have hok : (translateAddress supervisor gigapage 0x80000000 .load).2 = .ok 0x80000000 :=
    translated_of_to_option (by decide +kernel)
  exact (translate_address_sv39 supervisor gigapage 0x80000000 .load (by decide)
    (Or.inr (by decide))).1.mp ⟨_, _, Prod.ext rfl hok⟩

end RiscvVm.Proofs
