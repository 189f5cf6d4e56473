import RiscvVm.Lib.Bits

/-!
The Sv39 address translation of the RISC-V privileged architecture, over any
physical memory of 64-bit words: which page-table walks reach a leaf, what a
leaf permits, and the physical address it gives.
-/

namespace Sv39

inductive Access
  | fetch
  | load
  | store
deriving DecidableEq

/-- The privilege side of a translation: user or supervisor, and the SUM and
MXR bits. -/
structure Mode where
  user : Bool
  sum : Bool
  mxr : Bool

/-- Bits 63:39 equal bit 38. -/
def Canonical (va : BitVec 64) : Prop :=
  ∀ i, 39 ≤ i → i < 64 → va.getLsbD i = va.getLsbD 38

def vpn (va : BitVec 64) (i : Nat) : BitVec 9 := va.extractLsb' (12 + 9 * i) 9
def pageOffset (va : BitVec 64) : BitVec 12 := va.extractLsb' 0 12

def valid (pte : BitVec 64) : Bool := pte.getLsbD 0
def readable (pte : BitVec 64) : Bool := pte.getLsbD 1
def writable (pte : BitVec 64) : Bool := pte.getLsbD 2
def executable (pte : BitVec 64) : Bool := pte.getLsbD 3
def user (pte : BitVec 64) : Bool := pte.getLsbD 4
def ppn (pte : BitVec 64) : BitVec 44 := pte.extractLsb' 10 44
def ppn0 (pte : BitVec 64) : BitVec 9 := pte.extractLsb' 10 9
def ppn1 (pte : BitVec 64) : BitVec 9 := pte.extractLsb' 19 9
def ppn2 (pte : BitVec 64) : BitVec 26 := pte.extractLsb' 28 26
def reserved (pte : BitVec 64) : BitVec 10 := pte.extractLsb' 54 10

/-- The byte address of the page with this number. -/
def pageAddr (page : BitVec 44) : BitVec 64 := (page ++ 0#12).setWidth 64

/-- Where the entry for `va` lies in a table of level `i`. -/
def pteAddr (table va : BitVec 64) (i : Nat) : BitVec 64 := table + (vpn va i).setWidth 64 * 8

/-- Valid, no reserved bit, and not writable without being readable. -/
structure WellFormed (pte : BitVec 64) : Prop where
  valid : valid pte = true
  reserved : reserved pte = 0
  readWrite : writable pte = true → readable pte = true

def Leaf (pte : BitVec 64) : Prop := readable pte = true ∨ executable pte = true

/-- The walk of `va` from the table of level `i` ends in the leaf at address
`addr`, of level `level`; every entry on the way is well formed. -/
inductive Walk (read : BitVec 64 → BitVec 64) (va : BitVec 64) :
    Nat → BitVec 64 → Nat → BitVec 64 → Prop
  | leaf (i : Nat) (table : BitVec 64) (ok : WellFormed (read (pteAddr table va i)))
      (stop : Leaf (read (pteAddr table va i))) : Walk read va i table i (pteAddr table va i)
  | next (i : Nat) (table : BitVec 64) (level : Nat) (addr : BitVec 64)
      (ok : WellFormed (read (pteAddr table va (i + 1))))
      (go : ¬ Leaf (read (pteAddr table va (i + 1))))
      (rest : Walk read va i (pageAddr (ppn (read (pteAddr table va (i + 1))))) level addr) :
      Walk read va (i + 1) table level addr

/-- The PPN fields a superpage takes from the address are zero in its entry. -/
structure Aligned (pte : BitVec 64) (level : Nat) : Prop where
  low : 1 ≤ level → ppn0 pte = 0
  middle : 2 ≤ level → ppn1 pte = 0

/-- User pages for the user, user data for the supervisor under SUM only, and
the bit of the access itself. -/
structure Permits (mode : Mode) (access : Access) (pte : BitVec 64) : Prop where
  user : mode.user = true → user pte = true
  supervisor : mode.user = false → Sv39.user pte = true → access ≠ .fetch ∧ mode.sum = true
  load : access = .load → readable pte = true ∨ (mode.mxr = true ∧ executable pte = true)
  store : access = .store → writable pte = true
  fetch : access = .fetch → executable pte = true

/-- The leaf's PPN with its low `level` fields taken from the address, then the
page offset. -/
def physical (pte va : BitVec 64) (level : Nat) : BitVec 64 :=
  (ppn2 pte ++ (if 2 ≤ level then vpn va 1 else ppn1 pte) ++
    (if 1 ≤ level then vpn va 0 else ppn0 pte) ++ pageOffset va).setWidth 64

/-- The entry with Accessed set, and Dirty too for a store. -/
def mark (access : Access) (pte : BitVec 64) : BitVec 64 :=
  if access = .store then pte ||| (1#64 <<< 6) ||| (1#64 <<< 7) else pte ||| (1#64 <<< 6)

/-- The exception code of a page fault. -/
def pageFault : Access → BitVec 64
  | .fetch => 12
  | .load => 13
  | .store => 15

/-- `va` is translated by the leaf at `addr`, of level `level`, below the page
table at the page `root`. -/
structure Translates (read : BitVec 64 → BitVec 64) (mode : Mode) (root : BitVec 44)
    (va : BitVec 64) (access : Access) (level : Nat) (addr : BitVec 64) : Prop where
  canonical : Canonical va
  walk : Walk read va 2 (pageAddr root) level addr
  aligned : Aligned (read addr) level
  permits : Permits mode access (read addr)

/-- A walk has at most one leaf. -/
theorem Walk.unique {read : BitVec 64 → BitVec 64} {va table addr addr' : BitVec 64}
    {i level level' : Nat} (h : Walk read va i table level addr)
    (h' : Walk read va i table level' addr') : level = level' ∧ addr = addr' := by
  induction h generalizing level' addr' with
  | leaf i table ok stop =>
    cases h' with
    | leaf => exact ⟨rfl, rfl⟩
    | next i _ _ _ _ go => exact absurd stop go
  | next i table level addr ok go rest ih =>
    cases h' with
    | leaf _ _ _ stop => exact absurd stop go
    | next _ _ _ _ _ _ rest' => exact ih rest'

/-- Two entries that differ at most in Accessed and Dirty. -/
def SameEntry (x y : BitVec 64) : Prop := ∀ i, i ≠ 6 → i ≠ 7 → x.getLsbD i = y.getLsbD i

theorem SameEntry.symm {x y : BitVec 64} (h : SameEntry x y) : SameEntry y x :=
  fun i h6 h7 => (h i h6 h7).symm

section
variable {x y : BitVec 64} (h : SameEntry x y)
include h

theorem SameEntry.field {k : Nat} (n : Nat) (hk : 8 ≤ k) :
    x.extractLsb' k n = y.extractLsb' k n := by
  apply BitVec.eq_of_getLsbD_eq
  intro i hi
  rw [BitVec.getLsbD_extractLsb', BitVec.getLsbD_extractLsb', h (k + i) (by omega) (by omega)]

theorem SameEntry.wellFormed (hx : WellFormed x) : WellFormed y := by
  refine ⟨?_, ?_, ?_⟩
  · exact (h 0 (by omega) (by omega)).symm.trans hx.valid
  · exact (h.field 10 (by omega)).symm.trans hx.reserved
  · have hwrite : writable x = writable y := h 2 (by omega) (by omega)
    have hread : readable x = readable y := h 1 (by omega) (by omega)
    rw [← hwrite, ← hread]
    exact hx.readWrite

theorem SameEntry.leaf (hx : Leaf x) : Leaf y := by
  have hread : readable x = readable y := h 1 (by omega) (by omega)
  have hexec : executable x = executable y := h 3 (by omega) (by omega)
  rwa [Leaf, ← hread, ← hexec]

theorem SameEntry.aligned {level : Nat} (hx : Aligned x level) : Aligned y level :=
  ⟨fun hl => (h.field 9 (by omega)).symm.trans (hx.low hl),
    fun hl => (h.field 9 (by omega)).symm.trans (hx.middle hl)⟩

theorem SameEntry.physical_eq (va : BitVec 64) (level : Nat) :
    physical x va level = physical y va level := by
  have h0 : ppn0 x = ppn0 y := h.field 9 (by omega)
  have h1 : ppn1 x = ppn1 y := h.field 9 (by omega)
  have h2 : ppn2 x = ppn2 y := h.field 26 (by omega)
  rw [physical, physical, h0, h1, h2]

end

/-- A walk does not see the marks of the entries it reads. -/
theorem Walk.same {read read' : BitVec 64 → BitVec 64} {va : BitVec 64}
    (h : ∀ page i, SameEntry (read (pteAddr (pageAddr page) va i))
      (read' (pteAddr (pageAddr page) va i)))
    {i level : Nat} {table addr : BitVec 64} (hw : Walk read va i table level addr)
    (ht : ∃ page, table = pageAddr page) : Walk read' va i table level addr := by
  induction hw with
  | leaf i table ok stop =>
    obtain ⟨page, rfl⟩ := ht
    exact .leaf i _ ((h page i).wellFormed ok) ((h page i).leaf stop)
  | next i table level addr ok go rest ih =>
    obtain ⟨page, rfl⟩ := ht
    have he := h page (i + 1)
    have hnext : ppn (read (pteAddr (pageAddr page) va (i + 1))) =
        ppn (read' (pteAddr (pageAddr page) va (i + 1))) := he.field 44 (by omega)
    refine .next i _ level addr (he.wellFormed ok) (fun hl => go (he.symm.leaf hl)) ?_
    rw [← hnext]
    exact ih ⟨_, rfl⟩

theorem mark_get (access : Access) (pte : BitVec 64) (i : Nat) :
    (mark access pte).getLsbD i =
      (pte.getLsbD i || decide (i = 6) || (decide (access = .store) && decide (i = 7))) := by
  unfold mark
  split
  · rename_i hs
    simp (disch := decide) only [BitVec.getLsbD_or, Bits.getLsbD_one_shift, hs, decide_true,
      Bool.true_and]
  · rename_i hs
    simp (disch := decide) only [BitVec.getLsbD_or, Bits.getLsbD_one_shift, hs, decide_false,
      Bool.false_and, Bool.or_false]

/-- Marking changes no more than that. -/
theorem mark_same (access : Access) (pte : BitVec 64) : SameEntry pte (mark access pte) := by
  intro i h6 h7
  simp [mark_get, h6, h7]

theorem mark_comm (access access' : Access) (pte : BitVec 64) :
    mark access (mark access' pte) = mark access' (mark access pte) := by
  apply BitVec.eq_of_getLsbD_eq
  intro i hi
  simp only [mark_get]
  cases pte.getLsbD i <;> cases decide (i = 6) <;> cases decide (i = 7) <;> simp [Bool.or_comm]

theorem mark_idem (access : Access) (pte : BitVec 64) :
    mark access (mark access pte) = mark access pte := by
  apply BitVec.eq_of_getLsbD_eq
  intro i hi
  simp only [mark_get]
  cases pte.getLsbD i <;> cases decide (i = 6) <;> cases decide (i = 7) <;> simp

end Sv39
