import RiscvVm.Lib.Sv39

/-!
The footprint of an Sv39 walk: the page-table entries it reads. A walk goes by
these entries alone, and by no Accessed or Dirty bit of theirs.
-/

namespace Sv39

/-- The walk of `va` from the table of level `i` reads the entry at `addr`. -/
inductive Visits (read : BitVec 64 → BitVec 64) (va : BitVec 64) :
    Nat → BitVec 64 → BitVec 64 → Prop
  | here (i : Nat) (table : BitVec 64) : Visits read va i table (pteAddr table va i)
  | next (i : Nat) (table addr : BitVec 64) (ok : WellFormed (read (pteAddr table va (i + 1))))
      (go : ¬ Leaf (read (pteAddr table va (i + 1))))
      (rest : Visits read va i (pageAddr (ppn (read (pteAddr table va (i + 1))))) addr) :
      Visits read va (i + 1) table addr

section
variable {read read' : BitVec 64 → BitVec 64} {va table addr : BitVec 64} {i level : Nat}

/-- The leaf is the last entry a walk reads. -/
theorem Walk.visits (h : Walk read va i table level addr) : Visits read va i table addr := by
  induction h with
  | leaf i table ok stop => exact .here i table
  | next i table level addr ok go rest ih => exact .next i table addr ok go ih

/-- The table that an entry points to is the same whatever its marks. -/
theorem SameEntry.next_table {x y : BitVec 64} (h : SameEntry x y) :
    pageAddr (ppn x) = pageAddr (ppn y) := by
  have hppn : ppn x = ppn y := h.field 44 (by omega)
  rw [hppn]

/-- Two memories with the same entries on the way have the same walk. -/
theorem Walk.same_visited (hw : Walk read va i table level addr)
    (h : ∀ a, Visits read va i table a → SameEntry (read a) (read' a)) :
    Walk read' va i table level addr := by
  induction hw with
  | leaf i table ok stop =>
    have he := h _ (.here i table)
    exact .leaf i table (he.wellFormed ok) (he.leaf stop)
  | next i table level addr ok go rest ih =>
    have he := h _ (.here (i + 1) table)
    refine .next i table level addr (he.wellFormed ok) (fun hl => go (he.symm.leaf hl)) ?_
    rw [← he.next_table]
    exact ih fun a ha => h a (.next i table a ok go ha)

theorem Visits.same (hv : Visits read va i table addr)
    (h : ∀ a, Visits read va i table a → SameEntry (read a) (read' a)) :
    Visits read' va i table addr := by
  induction hv with
  | here i table => exact .here i table
  | next i table addr ok go rest ih =>
    have he := h _ (.here (i + 1) table)
    refine .next i table addr (he.wellFormed ok) (fun hl => go (he.symm.leaf hl)) ?_
    rw [← he.next_table]
    exact ih fun a ha => h a (.next i table a ok go ha)

/-- The entries of a walk are those of the other memory's walk too. -/
theorem Visits.same_iff (h : ∀ a, Visits read va i table a → SameEntry (read a) (read' a)) :
    Visits read' va i table addr ↔ Visits read va i table addr := by
  constructor
  · intro hv
    induction hv with
    | here i table => exact .here i table
    | next i table addr ok go rest ih =>
      have he := h _ (.here (i + 1) table)
      have hok := he.symm.wellFormed ok
      have hgo : ¬ Leaf (read (pteAddr table va (i + 1))) := fun hl => go (he.leaf hl)
      refine .next i table addr hok hgo ?_
      rw [he.next_table]
      refine ih fun a ha => h a (.next i table a hok hgo ?_)
      rwa [he.next_table]
  · intro hv
    exact hv.same h

/-- The entries that a walk from a page reads lie at multiples of eight. -/
theorem Visits.on_page (hv : Visits read va i table addr) (ht : ∃ page, table = pageAddr page) :
    ∃ page j, addr = pteAddr (pageAddr page) va j := by
  induction hv with
  | here i table =>
    obtain ⟨page, rfl⟩ := ht
    exact ⟨page, i, rfl⟩
  | next i table addr ok go rest ih => exact ih ⟨_, rfl⟩

end

end Sv39
