import RiscvVm.Lib.Footprint
import RiscvVm.Proofs.Walks

namespace RiscvVm.Proofs
open Sv39

/-- The translation of `va` reads the entry at `a`. -/
def Reads (cpu : Cpu) (bus : Bus) (va a : BitVec 64) : Prop :=
  Canonical va ∧ Visits (vmBusRead64 bus) va 2 (pageAddr (rootOf cpu)) a

theorem reads_aligned {cpu : Cpu} {bus : Bus} {va a : BitVec 64} (h : Reads cpu bus va a) :
    a.toNat % 8 = 0 := by
  obtain ⟨page, j, rfl⟩ := h.2.on_page ⟨_, rfl⟩
  exact pte_addr_aligned page va j

/-- The entries that the translation reads are the same, but for their marks. -/
def SameReads (cpu : Cpu) (bus bus' : Bus) (va : BitVec 64) : Prop :=
  ∀ a, Reads cpu bus va a → SameEntry (vmBusRead64 bus a) (vmBusRead64 bus' a)

theorem SameReads.iff {cpu : Cpu} {bus bus' : Bus} {va : BitVec 64}
    (h : SameReads cpu bus bus' va) (a : BitVec 64) :
    Reads cpu bus' va a ↔ Reads cpu bus va a :=
  and_congr_right fun hc => Visits.same_iff fun b hb => h b ⟨hc, hb⟩

theorem SameReads.symm {cpu : Cpu} {bus bus' : Bus} {va : BitVec 64}
    (h : SameReads cpu bus bus' va) : SameReads cpu bus' bus va :=
  fun a ha => (h a ((h.iff a).mp ha)).symm

/-- A walk that succeeds does so over any memory in which the entries it reads
are the same but for their marks, at the same leaf. -/
theorem sv39_loop_visited {cpu : Cpu} {bus bus' bus₁ : Bus} {va p : BitVec 64} {acc : AccessType}
    {priv : BitVec 8} (hc : Canonical va) (h : SameReads cpu bus bus' va)
    (hok : sv39Loop cpu bus va acc priv 2 (pageAddr (rootOf cpu)) = (bus₁, .ok p)) :
    ∃ a, Reads cpu bus va a ∧ Leaf (vmBusRead64 bus a) ∧ bus₁ = markAt bus a acc ∧
      sv39Loop cpu bus' va acc priv 2 (pageAddr (rootOf cpu)) = (markAt bus' a acc, .ok p) := by
  obtain ⟨level, a, hw, hal, hleaf, hp, hb⟩ :=
    (sv39_loop_ok cpu bus va acc priv (Nat.le_refl 2) _ _ _).mp hok
  have hreads : Reads cpu bus va a := ⟨hc, hw.visits⟩
  have ha := reads_aligned hreads
  have hl := (walk_leaf hw).2
  have he := h a hreads
  have hw' := hw.same_visited fun b hb => h b ⟨hc, hb⟩
  refine ⟨a, hreads, hl, hb.trans (write_back_eq ha hl acc), ?_⟩
  rw [sv39_loop_ok cpu bus' va acc priv (Nat.le_refl 2)]
  refine ⟨level, a, hw', he.aligned hal, leaf_ok_same he hleaf, ?_, ?_⟩
  · rw [hp, he.physical_eq]
  · rw [write_back_eq ha (he.leaf hl), markAt]

/-- A translation goes by the entries it reads: where those are the same it has
the same result, and it marks the same leaf if it marks one. -/
theorem translate_visited {cpu : Cpu} {bus bus' : Bus} {va : BitVec 64}
    (h : SameReads cpu bus bus' va) (acc : AccessType) :
    (∃ r, translateAddress cpu bus va acc = (bus, r) ∧
      translateAddress cpu bus' va acc = (bus', r)) ∨
    (∃ p a, Reads cpu bus va a ∧ Leaf (vmBusRead64 bus a) ∧
      translateAddress cpu bus va acc = (markAt bus a acc, .ok p) ∧
      translateAddress cpu bus' va acc = (markAt bus' a acc, .ok p)) := by
  unfold translateAddress sv39
  dsimp only
  rw [root_table_eq]
  split
  · exact Or.inl ⟨_, rfl, rfl⟩
  split
  · by_cases hup : checkUpperBits va = true
    · have hc := (upper_bits_iff va).mp hup
      rw [hup]
      rcases sv39_loop_error cpu bus va acc (effectivePriviledge cpu acc) 2
        (pageAddr (rootOf cpu)) with ⟨b, p, hok⟩ | herr
      · obtain ⟨a, ha, hl, rfl, hok'⟩ := sv39_loop_visited hc h hok
        exact Or.inr ⟨p, a, ha, hl, hok, hok'⟩
      · rcases sv39_loop_error cpu bus' va acc (effectivePriviledge cpu acc) 2
          (pageAddr (rootOf cpu)) with ⟨b, p, hok⟩ | herr'
        · obtain ⟨a, _, _, _, hok'⟩ := sv39_loop_visited hc h.symm hok
          rw [herr] at hok'
          have hr := congrArg Prod.snd hok'
          cases hr
        · exact Or.inl ⟨_, herr, herr'⟩
    · rw [Bool.not_eq_true] at hup
      rw [hup]
      exact Or.inl ⟨_, rfl, rfl⟩
  · exact Or.inl ⟨_, rfl, rfl⟩

theorem translate_result_visited {cpu : Cpu} {bus bus' : Bus} {va : BitVec 64}
    (h : SameReads cpu bus bus' va) (acc : AccessType) :
    (translateAddress cpu bus' va acc).2 = (translateAddress cpu bus va acc).2 := by
  rcases translate_visited h acc with ⟨r, hr, hr'⟩ | ⟨p, a, _, _, hr, hr'⟩
  · rw [hr, hr']
  · rw [hr, hr']

end RiscvVm.Proofs
