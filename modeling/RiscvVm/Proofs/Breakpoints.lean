import Mathlib.Data.List.Induction
import RiscvVm.Debugger

namespace RiscvVm.Proofs

/-- The breakpoints after these calls of `add_breakpoint`, if all of them write
to the table. -/
def added (addrs : List (BitVec 64)) : Option Breakpoints :=
  addrs.foldlM addBreakpoint noBreakpoints

variable {addrs : List (BitVec 64)}

theorem added_snoc (addr : BitVec 64) :
    added (addrs ++ [addr]) = (added addrs).bind (addBreakpoint · addr) := by
  simp [added, List.foldlM_append]

/-- The calls fill the slots in order. -/
theorem added_entries (h : addrs.length ≤ maxBreakpoints) : ∃ b, added addrs = some b ∧
    b.count.toNat = addrs.length ∧ ∀ i (hi : i < addrs.length), b.table i = addrs[i] := by
  have hmax : maxBreakpoints = 64 := rfl
  induction addrs using List.reverseRecOn with
  | nil => exact ⟨noBreakpoints, rfl, rfl, fun i hi => absurd hi (Nat.not_lt_zero i)⟩
  | append_singleton addrs addr ih =>
    rw [List.length_append, List.length_singleton] at h
    obtain ⟨b, hb, hcount, hentry⟩ := ih (by omega)
    have hroom : b.count.toNat < maxBreakpoints := by omega
    refine ⟨_, by rw [added_snoc, hb, Option.bind_some, addBreakpoint, dif_pos hroom], ?_, ?_⟩
    · have hone : (1 : BitVec 8).toNat = 1 := rfl
      rw [BitVec.toNat_add, hone, List.length_append, List.length_singleton]
      omega
    · intro i hi
      dsimp only
      rw [hcount]
      by_cases hlast : i = addrs.length
      · subst hlast
        simp
      · have hlt : i < addrs.length := by
          have : i < addrs.length + 1 := by simpa using hi
          omega
        rw [if_neg hlast, hentry i hlt, List.getElem_append_left hlt]

/-- After as many calls as there are slots, none is left. -/
theorem added_full (h : addrs.length = maxBreakpoints) :
    ¬ ∃ b, added addrs = some b ∧ b.count.toNat < maxBreakpoints := by
  rintro ⟨b, hb, hroom⟩
  obtain ⟨b', hb', hcount, _⟩ := added_entries (Nat.le_of_eq h)
  obtain rfl : b = b' := Option.some.inj (hb.symm.trans hb')
  omega

theorem is_breakpoint_iff (b : Breakpoints) (a : BitVec 64) :
    isBreakpoint b a = true ↔ ∃ i < b.count.toNat, b.table i = a := by
  simp [isBreakpoint]

/-- What was added is found, and nothing else. -/
theorem added_found {b : Breakpoints} (hcount : b.count.toNat = addrs.length)
    (hentry : ∀ i (hi : i < addrs.length), b.table i = addrs[i]) (a : BitVec 64) :
    isBreakpoint b a = true ↔ a ∈ addrs := by
  rw [is_breakpoint_iff, hcount, List.mem_iff_getElem]
  constructor
  · rintro ⟨i, hi, ha⟩
    exact ⟨i, hi, by rw [← ha, hentry i hi]⟩
  · rintro ⟨i, hi, ha⟩
    exact ⟨i, hi, by rw [← ha, hentry i hi]⟩

theorem read_indices_mem {b : Breakpoints} {a : BitVec 64} {slots : List Nat} {i : Nat}
    (h : i ∈ readIndices b a slots) : i ∈ slots := by
  induction slots with
  | nil => simp [readIndices] at h
  | cons j slots ih =>
    simp only [readIndices] at h
    split at h
    · exact List.mem_cons.mpr (Or.inl (List.mem_singleton.mp h))
    · rcases List.mem_cons.mp h with rfl | hrest
      · exact List.mem_cons_self
      · exact List.mem_cons_of_mem _ (ih hrest)

/-- The calls `addrs` keep to the table, and after each of them exactly the
addresses added so far are found. -/
structure BoundedSet (addrs : List (BitVec 64)) : Prop where
  writes : ∀ before addr after, addrs = before ++ addr :: after →
    ∃ b, added before = some b ∧ b.count.toNat < maxBreakpoints
  reads : ∀ before after, addrs = before ++ after → ∃ b, added before = some b ∧
    ∀ a, ∀ i ∈ readIndices b a (List.range b.count.toNat), i < maxBreakpoints
  found : ∀ before after, addrs = before ++ after → ∃ b, added before = some b ∧
    ∀ a, isBreakpoint b a = true ↔ a ∈ before

/-- No call is refused, so the table keeps to its bounds as long as there are no
more calls than slots. -/
theorem breakpoints_bounded_iff (addrs : List (BitVec 64)) :
    BoundedSet addrs ↔ addrs.length ≤ maxBreakpoints := by
  have hmax : maxBreakpoints = 64 := rfl
  constructor
  · intro h
    by_cases hlong : addrs.length ≤ maxBreakpoints
    · exact hlong
    · have hsplit : addrs = addrs.take 64 ++ addrs[64] :: addrs.drop 65 := by
        rw [List.getElem_cons_drop, List.take_append_drop]
      have hlen : (addrs.take 64).length = maxBreakpoints := by
        rw [List.length_take]
        omega
      exact absurd (h.writes _ _ _ hsplit) (added_full hlen)
  · intro h
    constructor
    · rintro before addr after rfl
      rw [List.length_append, List.length_cons] at h
      obtain ⟨b, hb, hcount, _⟩ := @added_entries before (by omega)
      exact ⟨b, hb, by omega⟩
    · rintro before after rfl
      rw [List.length_append] at h
      obtain ⟨b, hb, hcount, _⟩ := @added_entries before (by omega)
      refine ⟨b, hb, fun a i hi => ?_⟩
      have := List.mem_range.mp (read_indices_mem hi)
      omega
    · rintro before after rfl
      rw [List.length_append] at h
      obtain ⟨b, hb, hcount, hentry⟩ := @added_entries before (by omega)
      exact ⟨b, hb, added_found hcount hentry⟩

/-- The 65th call writes behind the table. -/
theorem breakpoints_lost : ¬ BoundedSet (List.replicate 65 0x80000000) := by
  intro h
  have hroom := h.writes (List.replicate 64 0x80000000) 0x80000000 [] rfl
  exact @added_full (List.replicate 64 0x80000000) List.length_replicate hroom

end RiscvVm.Proofs
