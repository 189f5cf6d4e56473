import Mathlib.Data.List.Forall2
import RiscvVm.Lib.Past

/-!
Runs of a machine on a list of inputs, as long as each step starts in a state
of some kind: how they are put together, what two of them side by side
preserve, and where a run leaves such states.
-/

namespace Past

variable {σ α : Type} {apply : σ → α → σ} {ok : σ → α → Prop}

theorem along_append {as bs : List α} {s : σ} :
    Along apply ok s (as ++ bs) ↔ Along apply ok s as ∧ Along apply ok (as.foldl apply s) bs := by
  induction as generalizing s with
  | nil => simp [Along]
  | cons a as ih =>
    simp only [List.cons_append, Along, ih, List.foldl_cons, and_assoc]

/-- A relation between two runs, of one machine or of two, on inputs that are
related one by one, when the first keeps to states of that kind. -/
theorem Along.related {τ β : Type} {apply' : τ → β → τ} {S : α → β → Prop} {R : σ → τ → Prop}
    (hstep : ∀ s t a b, R s t → S a b → ok s a → R (apply s a) (apply' t b)) {as : List α}
    {bs : List β} (hin : List.Forall₂ S as bs) {s : σ} {t : τ} (hrun : Along apply ok s as)
    (hs : R s t) : R (as.foldl apply s) (bs.foldl apply' t) := by
  induction hin generalizing s t with
  | nil => exact hs
  | cons hab _ ih =>
    have hend := ih hrun.2 (hstep s t _ _ hs hab hrun.1)
    exact hend

/-- A run that cannot be as long as its inputs leaves such states on the way,
and does so for the first time somewhere. -/
theorem Along.leaves {good : σ → Prop} {as : List α} {s : σ}
    (hlong : ¬ Along apply (fun s _ => good s) s as) :
    ∃ k < as.length, Along apply (fun s _ => good s) s (as.take k) ∧
      ¬ good ((as.take k).foldl apply s) := by
  induction as generalizing s with
  | nil => exact absurd trivial hlong
  | cons a as ih =>
    by_cases hg : good s
    · obtain ⟨k, hk, hrun, hno⟩ := ih fun hrest => hlong ⟨hg, hrest⟩
      exact ⟨k + 1, by simpa using hk, ⟨hg, hrun⟩, hno⟩
    · exact ⟨0, by simp, trivial, hg⟩

end Past
