import RiscvVm.Proofs.Paging

namespace RiscvVm.Proofs
open Sv39

/-- The entries of all page tables are the same, but for the marks in them. -/
def SameTables (bus bus' : Bus) : Prop :=
  ∀ a : BitVec 64, a.toNat % 8 = 0 → SameEntry (vmBusRead64 bus a) (vmBusRead64 bus' a)

theorem SameTables.symm {bus bus' : Bus} (h : SameTables bus bus') : SameTables bus' bus :=
  fun a ha => (h a ha).symm

/-- Two different words have no byte in common. -/
theorem words_apart {a b : BitVec 64} (ha : a.toNat % 8 = 0) (hb : b.toNat % 8 = 0) (hne : a ≠ b)
    (x : BitVec 64) (hx : (x - (a - memBase)).toNat < 8) : 8 ≤ (x - (b - memBase)).toNat := by
  have hab : a.toNat ≠ b.toNat := fun h => hne (BitVec.eq_of_toNat_eq h)
  have hbase : memBase.toNat = 2147483648 := rfl
  have hlt := a.isLt
  have hlt' := b.isLt
  have hltx := x.isLt
  simp only [BitVec.toNat_sub] at hx ⊢
  omega

/-- No word but the register itself shows that it has changed. -/
theorem read64_mtimecmp_other (bus : Bus) (v : BitVec 64) {b : BitVec 64}
    (h : b ≠ timerBase + timerMtimecmp) :
    vmBusRead64 { bus with timer := { bus.timer with mtimecmp := v } } b = vmBusRead64 bus b := by
  simp only [vmBusRead64, timerRead64, offset_ne h, if_false]

theorem read64_mtime_other (bus : Bus) (v : BitVec 64) {b : BitVec 64}
    (h : b ≠ timerBase + timerMtime) :
    vmBusRead64 { bus with timer := { bus.timer with mtime := v } } b = vmBusRead64 bus b := by
  simp only [vmBusRead64, timerRead64, offset_ne h, if_false]

section
variable {bus : Bus} {a b : BitVec 64} (ha : a.toNat % 8 = 0) (hleaf : Leaf (vmBusRead64 bus a))
include ha hleaf

/-- A write to a leaf entry leaves all other words alone. -/
theorem leaf_write_other (hb : b.toNat % 8 = 0) (hne : b ≠ a) (v : BitVec 64) :
    vmBusRead64 (vmBusWrite64 bus a v) b = vmBusRead64 bus b := by
  rcases leaf_place ha hleaf with hram | rfl | rfl
  · rw [bus_write64_in_ram bus v hram]
    by_cases hin : InRam b 8
    · rw [bus_read64_in_ram _ hin, bus_read64_in_ram bus hin]
      exact ByteMap.read_write_other bus.ram.mem v (by omega) (by omega)
        fun x hx => words_apart hb ha hne x hx
    · exact bus_read_outside .w64 bus _ hin
  · exact read64_mtimecmp_other bus v hne
  · exact read64_mtime_other bus v hne

theorem leaf_write_write (v v' : BitVec 64) :
    vmBusWrite64 (vmBusWrite64 bus a v) a v' = vmBusWrite64 bus a v' := by
  rcases leaf_place ha hleaf with hram | rfl | rfl
  · rw [bus_write64_in_ram bus v hram, bus_write64_in_ram _ v' hram, bus_write64_in_ram bus v' hram,
      ByteMap.write_write _ _ _ _ (by omega)]
  · rfl
  · rfl

theorem leaf_write_comm (hb : b.toNat % 8 = 0) (hleaf' : Leaf (vmBusRead64 bus b)) (hne : a ≠ b)
    (v v' : BitVec 64) :
    vmBusWrite64 (vmBusWrite64 bus a v) b v' = vmBusWrite64 (vmBusWrite64 bus b v') a v := by
  rcases leaf_place ha hleaf with hram | rfl | rfl
  · rcases leaf_place hb hleaf' with hram' | rfl | rfl
    · rw [bus_write64_in_ram bus v hram, bus_write64_in_ram _ v' hram',
        bus_write64_in_ram bus v' hram', bus_write64_in_ram _ v hram,
        ByteMap.write_comm _ v v' (by omega) (by omega) (words_apart ha hb hne)]
    · rw [mtimecmp_write64, mtimecmp_write64, bus_write64_in_ram bus v hram,
        bus_write64_in_ram _ v hram]
    · rw [mtime_write64, mtime_write64, bus_write64_in_ram bus v hram,
        bus_write64_in_ram _ v hram]
  · rcases leaf_place hb hleaf' with hram' | rfl | rfl
    · rw [mtimecmp_write64, mtimecmp_write64, bus_write64_in_ram bus v' hram',
        bus_write64_in_ram _ v' hram']
    · exact absurd rfl hne
    · rfl
  · rcases leaf_place hb hleaf' with hram' | rfl | rfl
    · rw [mtime_write64, mtime_write64, bus_write64_in_ram bus v' hram',
        bus_write64_in_ram _ v' hram']
    · rfl
    · exact absurd rfl hne

end

/-- The bus after the entry at `a` has been marked for the access. -/
def markAt (bus : Bus) (a : BitVec 64) (acc : AccessType) : Bus :=
  vmBusWrite64 bus a (mark (accessOf acc) (vmBusRead64 bus a))

section
variable {bus : Bus} {a b : BitVec 64} (ha : a.toNat % 8 = 0) (hleaf : Leaf (vmBusRead64 bus a))
include ha hleaf

/-- Marking a leaf leaves the tables the same, even where it is an entry of
another table. -/
theorem mark_at_tables (acc : AccessType) : SameTables bus (markAt bus a acc) := by
  intro b hb
  by_cases hne : b = a
  · rw [hne, markAt, leaf_write_read ha hleaf]
    exact mark_same (accessOf acc) _
  · rw [markAt, leaf_write_other ha hleaf hb hne]
    exact fun _ _ _ => rfl

theorem mark_at_twice (acc acc' : AccessType) :
    markAt (markAt bus a acc) a acc' =
      vmBusWrite64 bus a (mark (accessOf acc') (mark (accessOf acc) (vmBusRead64 bus a))) := by
  rw [markAt, markAt, leaf_write_read ha hleaf, leaf_write_write ha hleaf]

theorem mark_at_idem (acc : AccessType) : markAt (markAt bus a acc) a acc = markAt bus a acc := by
  rw [mark_at_twice ha hleaf, mark_idem, markAt]

theorem mark_at_comm (hb : b.toNat % 8 = 0) (hleaf' : Leaf (vmBusRead64 bus b))
    (acc acc' : AccessType) :
    markAt (markAt bus a acc) b acc' = markAt (markAt bus b acc') a acc := by
  by_cases hne : a = b
  · subst hne
    rw [mark_at_twice ha hleaf, mark_at_twice ha hleaf, mark_comm]
  · rw [markAt, markAt, markAt, markAt, leaf_write_other ha hleaf hb (fun h => hne h.symm),
      leaf_write_other hb hleaf' ha hne]
    exact leaf_write_comm ha hleaf hb hleaf' hne _ _

end

theorem leaf_ok_same {x y : BitVec 64} (h : SameEntry x y) {cpu : Cpu} {acc : AccessType}
    {priv : BitVec 8} (hok : LeafOk cpu acc priv x) : LeafOk cpu acc priv y := by
  have hread : readable x = readable y := h 1 (by omega) (by omega)
  have hwrite : writable x = writable y := h 2 (by omega) (by omega)
  have hexec : executable x = executable y := h 3 (by omega) (by omega)
  have huser : user x = user y := h 4 (by omega) (by omega)
  rwa [LeafOk, AccessBits, ← hread, ← hwrite, ← hexec, ← huser]

/-- A walk that succeeds over one set of tables succeeds over the same tables
with other marks, at the same leaf. -/
theorem sv39_loop_same {cpu : Cpu} {bus bus' bus₁ : Bus} {va p : BitVec 64} {acc : AccessType}
    {priv : BitVec 8} {page : BitVec 44} (h : SameTables bus bus')
    (hok : sv39Loop cpu bus va acc priv 2 (pageAddr page) = (bus₁, .ok p)) :
    ∃ a, a.toNat % 8 = 0 ∧ Leaf (vmBusRead64 bus a) ∧ bus₁ = markAt bus a acc ∧
      sv39Loop cpu bus' va acc priv 2 (pageAddr page) = (markAt bus' a acc, .ok p) := by
  obtain ⟨level, a, hw, hal, hleaf, hp, hb⟩ :=
    (sv39_loop_ok cpu bus va acc priv (Nat.le_refl 2) _ _ _).mp hok
  have ha := walk_addr_aligned hw ⟨page, rfl⟩
  have hl := (walk_leaf hw).2
  have he := h a ha
  have hw' : Walk (vmBusRead64 bus') va 2 (pageAddr page) level a :=
    hw.same (fun page i => h _ (pte_addr_aligned page va i)) ⟨page, rfl⟩
  refine ⟨a, ha, hl, hb.trans (write_back_eq ha hl acc), ?_⟩
  rw [sv39_loop_ok cpu bus' va acc priv (Nat.le_refl 2)]
  refine ⟨level, a, hw', he.aligned hal, leaf_ok_same he hleaf, ?_, ?_⟩
  · rw [hp, he.physical_eq]
  · rw [write_back_eq ha (he.leaf hl), markAt]

/-- Over the same tables a translation has the same result, and marks the same
leaf if it marks one. -/
theorem translate_same {bus bus' : Bus} (h : SameTables bus bus') (cpu : Cpu) (va : BitVec 64)
    (acc : AccessType) :
    (∃ r, translateAddress cpu bus va acc = (bus, r) ∧
      translateAddress cpu bus' va acc = (bus', r)) ∨
    (∃ p a, a.toNat % 8 = 0 ∧ Leaf (vmBusRead64 bus a) ∧
      translateAddress cpu bus va acc = (markAt bus a acc, .ok p) ∧
      translateAddress cpu bus' va acc = (markAt bus' a acc, .ok p)) := by
  unfold translateAddress sv39
  dsimp only
  rw [root_table_eq]
  split
  · exact Or.inl ⟨_, rfl, rfl⟩
  split
  · split
    · exact Or.inl ⟨_, rfl, rfl⟩
    rcases sv39_loop_error cpu bus va acc (effectivePriviledge cpu acc) 2 (pageAddr (rootOf cpu))
      with ⟨b, p, hok⟩ | herr
    · obtain ⟨a, ha, hl, rfl, hok'⟩ := sv39_loop_same h hok
      exact Or.inr ⟨p, a, ha, hl, hok, hok'⟩
    · rcases sv39_loop_error cpu bus' va acc (effectivePriviledge cpu acc) 2
        (pageAddr (rootOf cpu)) with ⟨b, p, hok⟩ | herr'
      · obtain ⟨a, _, _, _, hok'⟩ := sv39_loop_same h.symm hok
        rw [herr] at hok'
        have hr := congrArg Prod.snd hok'
        cases hr
      · exact Or.inl ⟨_, herr, herr'⟩
  · exact Or.inl ⟨_, rfl, rfl⟩

theorem translate_tables (cpu : Cpu) (bus : Bus) (va : BitVec 64) (acc : AccessType) :
    SameTables bus (translateAddress cpu bus va acc).1 := by
  have hrefl : SameTables bus bus := fun _ _ _ _ _ => rfl
  rcases translate_same hrefl cpu va acc with ⟨r, h, _⟩ | ⟨p, a, ha, hl, h, _⟩
  · rw [h]
    exact hrefl
  · rw [h]
    exact mark_at_tables ha hl acc

/-- Two translations in either order: each has the result it has alone, and the
memory they leave is the same. -/
theorem translate_comm (cpu : Cpu) (bus : Bus) (va va' : BitVec 64) (acc acc' : AccessType) :
    (translateAddress cpu (translateAddress cpu bus va acc).1 va' acc').2 =
      (translateAddress cpu bus va' acc').2 ∧
    (translateAddress cpu (translateAddress cpu bus va acc).1 va' acc').1 =
      (translateAddress cpu (translateAddress cpu bus va' acc').1 va acc).1 := by
  have h := translate_tables cpu bus va acc
  have h' := translate_tables cpu bus va' acc'
  rcases translate_same h cpu va' acc' with ⟨r', hone', htwo'⟩ | ⟨p', b, hb, hlb, hone', htwo'⟩
  · rcases translate_same h' cpu va acc with ⟨r, hone, htwo⟩ | ⟨p, a, ha, hla, hone, htwo⟩
    · rw [htwo', htwo, hone, hone']
      exact ⟨rfl, rfl⟩
    · rw [htwo', htwo, hone, hone']
      exact ⟨rfl, rfl⟩
  · rcases translate_same h' cpu va acc with ⟨r, hone, htwo⟩ | ⟨p, a, ha, hla, hone, htwo⟩
    · rw [htwo', htwo, hone, hone']
      exact ⟨rfl, rfl⟩
    · rw [htwo', htwo, hone, hone']
      exact ⟨rfl, mark_at_comm ha hla hb hlb acc acc'⟩

theorem translate_again {cpu : Cpu} {bus bus' : Bus} {va p : BitVec 64} {acc : AccessType}
    (hok : translateAddress cpu bus va acc = (bus', .ok p)) :
    translateAddress cpu bus' va acc = (bus', .ok p) := by
  have h := translate_tables cpu bus va acc
  rw [hok] at h
  rcases translate_same h cpu va acc with ⟨r, hone, htwo⟩ | ⟨q, a, ha, hl, hone, htwo⟩
  · rw [hok] at hone
    rw [htwo]
    exact congrArg (Prod.mk bus') (congrArg Prod.snd hone).symm
  · rw [hok] at hone
    obtain ⟨rfl, hr⟩ := Prod.mk.inj hone
    rw [htwo, mark_at_idem ha hl acc, hr]

/-- What a store may write it may also read: an entry that is writable is
readable, and the two accesses are checked alike otherwise. -/
theorem leaf_ok_load {cpu : Cpu} {priv : BitVec 8} {pte : BitVec 64} (hwf : WellFormed pte)
    (h : LeafOk cpu .store priv pte) : LeafOk cpu .load priv pte := by
  obtain ⟨hpriv, _, hwrite, _⟩ := h
  refine ⟨?_, fun _ => Or.inl (hwf.readWrite (hwrite rfl)), fun h => ?_, fun h => ?_⟩
  · simpa [checkPriviledge] using hpriv
  · cases h
  · cases h

theorem translate_load_of_store {cpu : Cpu} {bus : Bus} {va p : BitVec 64}
    (hok : (translateAddress cpu bus va .store).2 = .ok p) :
    (translateAddress cpu bus va .load).2 = .ok p := by
  have hpriv : effectivePriviledge cpu .load = effectivePriviledge cpu .store := by
    simp [effectivePriviledge]
  unfold translateAddress sv39 at hok ⊢
  dsimp only at hok ⊢
  rw [root_table_eq] at hok ⊢
  rw [hpriv]
  split at hok
  · rwa [if_pos ‹_›]
  rw [if_neg ‹_›]
  split at hok
  · rw [if_pos ‹_›]
    split at hok
    · cases hok
    rw [if_neg ‹_›]
    obtain ⟨level, a, hw, hal, hleaf, hp, _⟩ :=
      (sv39_loop_ok cpu bus va .store _ (Nat.le_refl 2) _ _ p).mp (Prod.ext rfl hok)
    have hload : sv39Loop cpu bus va .load (effectivePriviledge cpu .store) 2
        (pageAddr (rootOf cpu)) = (writeBack bus a .load, .ok p) := by
      rw [sv39_loop_ok cpu bus va .load _ (Nat.le_refl 2)]
      exact ⟨level, a, hw, hal, leaf_ok_load (walk_leaf hw).1 hleaf, hp, rfl⟩
    rw [hload]
  · cases hok

/-- Accessed and Dirty have no part in translation. Of any two translations,
over whatever tables, each returns what it returns alone, and the memory after
both does not depend on their order; a translation that has succeeded succeeds
again with the same address and leaves the memory alone; and where a store is
translated a load is, to the same address. -/
theorem translations_independent (cpu : Cpu) (bus : Bus) (va va' : BitVec 64)
    (acc acc' : AccessType) :
    ((translateAddress cpu (translateAddress cpu bus va' acc').1 va acc).2 =
        (translateAddress cpu bus va acc).2 ∧
      (translateAddress cpu (translateAddress cpu bus va acc).1 va' acc').2 =
        (translateAddress cpu bus va' acc').2 ∧
      (translateAddress cpu (translateAddress cpu bus va acc).1 va' acc').1 =
        (translateAddress cpu (translateAddress cpu bus va' acc').1 va acc).1) ∧
    (∀ bus' p, translateAddress cpu bus va acc = (bus', .ok p) →
      translateAddress cpu bus' va acc = (bus', .ok p)) ∧
    (∀ p, (translateAddress cpu bus va .store).2 = .ok p →
      (translateAddress cpu bus va .load).2 = .ok p) := by
  obtain ⟨hsecond, hbus⟩ := translate_comm cpu bus va va' acc acc'
  obtain ⟨hfirst, _⟩ := translate_comm cpu bus va' va acc' acc
  exact ⟨⟨hfirst, hsecond, hbus⟩, fun _ _ => translate_again, fun _ => translate_load_of_store⟩

/-- The gigapage is read where it is written. -/
theorem gigapage_load_of_store :
    (translateAddress supervisor gigapage 0x80000008 .load).2 = .ok 0x80000008 :=
  (translations_independent supervisor gigapage 0x80000008 0 .store .load).2.2 _
    (translated_of_to_option (by decide +kernel))

end RiscvVm.Proofs
