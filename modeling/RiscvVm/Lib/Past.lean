import Mathlib.Order.Basic

/-!
Properties of a run that depend on its past: something has happened, and
nothing has undone it since, or every step so far was of some kind.
-/

namespace Past

variable {Sets Keeps : Nat → Prop} {k : Nat}

/-- A step before the `k`th one sets it, and every step between the two keeps it. -/
def Since (Sets Keeps : Nat → Prop) (k : Nat) : Prop :=
  ∃ j < k, Sets j ∧ ∀ i, j < i → i < k → Keeps i

theorem not_since_zero : ¬ Since Sets Keeps 0 := by
  rintro ⟨j, hj, _⟩
  omega

theorem since_succ : Since Sets Keeps (k + 1) ↔ Sets k ∨ (Since Sets Keeps k ∧ Keeps k) := by
  constructor
  · rintro ⟨j, hj, hset, hkeep⟩
    rcases Nat.lt_or_eq_of_le (Nat.le_of_lt_succ hj) with hlt | rfl
    · exact Or.inr ⟨⟨j, hlt, hset, fun i hji hik => hkeep i hji (by omega)⟩, hkeep k hlt (by omega)⟩
    · exact Or.inl hset
  · rintro (hset | ⟨⟨j, hj, hset, hkeep⟩, hk⟩)
    · exact ⟨k, by omega, hset, fun i hki hik => absurd hki (by omega)⟩
    · refine ⟨j, by omega, hset, fun i hji hik => ?_⟩
      rcases Nat.lt_or_eq_of_le (Nat.le_of_lt_succ hik) with hlt | rfl
      · exact hkeep i hji hlt
      · exact hk

/-- A state bit that each step sets, keeps or clears tells what has happened. -/
theorem latch (Holds : Nat → Prop) (hfirst : ¬ Holds 0)
    (hstep : ∀ i < k, (Holds (i + 1) ↔ Sets i ∨ (Holds i ∧ Keeps i))) :
    Holds k ↔ Since Sets Keeps k := by
  induction k with
  | zero => exact iff_of_false hfirst not_since_zero
  | succ k ih =>
    have hbefore := ih fun i hi => hstep i (by omega)
    rw [hstep k (by omega), since_succ, hbefore]

/-- Every step of the run satisfies `ok` in the state it starts from. -/
def Along {σ α : Type} (apply : σ → α → σ) (ok : σ → α → Prop) : σ → List α → Prop
  | _, [] => True
  | s, a :: as => ok s a ∧ Along apply ok (apply s a) as

end Past
