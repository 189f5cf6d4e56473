import Mathlib.Logic.Function.Iterate

/-!
Functions with fuel: one error stands for having run out of it, and any other
result is meant to stay the result with more.
-/

namespace Fuel

variable {ε α β : Type} {out : ε}

/-- The same result, unless the first ran out. -/
def Below (out : ε) (x y : Except ε α) : Prop := x = .error out ∨ x = y

section
variable {x y z : Except ε α}

theorem Below.refl (x : Except ε α) : Below out x x := Or.inr rfl

theorem Below.trans (h : Below out x y) (h' : Below out y z) : Below out x z := by
  obtain rfl | rfl := h
  · exact Or.inl rfl
  · exact h'

theorem Below.bind {f g : α → Except ε β} (h : Below out x y)
    (hfg : ∀ a, Below out (f a) (g a)) : Below out (x >>= f) (y >>= g) := by
  obtain rfl | rfl := h
  · exact Or.inl rfl
  · cases x with
    | error e => exact Or.inr rfl
    | ok a => exact hfg a

theorem Below.map (f : α → β) (h : Below out x y) : Below out (x.map f) (y.map f) := by
  obtain rfl | rfl := h
  · exact Or.inl rfl
  · exact .refl _

end

theorem Below.foldlM {f g : β → α → Except ε β} (h : ∀ b a, Below out (f b a) (g b a))
    (l : List α) (b : β) : Below out (l.foldlM f b) (l.foldlM g b) := by
  induction l generalizing b with
  | nil => exact .refl _
  | cons a l ih =>
    rw [List.foldlM_cons, List.foldlM_cons]
    exact (h b a).bind ih

/-- What each turn of a fold keeps, as long as it does not fail, the fold keeps. -/
theorem foldlM_keeps {P : β → Prop} {f : β → α → Except ε β} {l : List α}
    (h : ∀ b a b', a ∈ l → P b → f b a = .ok b' → P b') {b r : β} (hb : P b)
    (hr : l.foldlM f b = .ok r) : P r := by
  induction l generalizing b with
  | nil =>
    cases hr
    exact hb
  | cons a l ih =>
    rw [List.foldlM_cons] at hr
    cases hf : f b a with
    | error e =>
      rw [hf] at hr
      cases hr
    | ok b' =>
      rw [hf] at hr
      exact ih (fun b a b' ha => h b a b' (by simp [ha])) (h b a b' (by simp) hb hf) hr

/-- Some fuel gives this result. -/
def Ends (out : ε) (f : Nat → Except ε α) (r : Except ε α) : Prop :=
  r ≠ .error out ∧ ∃ fuel, f fuel = r

section
variable {f g : Nat → Except ε α} {r : Except ε α}

theorem Ends.mono (hfg : ∀ n, ∃ m, Below out (f n) (g m)) (h : Ends out f r) : Ends out g r := by
  obtain ⟨hr, n, hn⟩ := h
  obtain ⟨m, hm⟩ := hfg n
  obtain ho | he := hm
  · exact absurd (hn.symm.trans ho) hr
  · exact ⟨hr, m, he.symm.trans hn⟩

/-- Functions that are below each other, at whatever fuel, end alike. -/
theorem ends_congr (hfg : ∀ n, ∃ m, Below out (f n) (g m)) (hgf : ∀ n, ∃ m, Below out (g n) (f m)) :
    Ends out f r ↔ Ends out g r := ⟨.mono hfg, .mono hgf⟩

theorem below_of_le (hf : ∀ n, Below out (f n) (f (n + 1))) {n m : Nat} (h : n ≤ m) :
    Below out (f n) (f m) := by
  induction h with
  | refl => exact .refl _
  | step _ ih => exact ih.trans (hf _)

/-- A computation in two stages ends through a result of the first. -/
theorem ends_bind_iff {k : Nat → α → Except ε β} {r : Except ε β}
    (hf : ∀ n, Below out (f n) (f (n + 1))) (hk : ∀ n a, Below out (k n a) (k (n + 1) a)) :
    Ends out (fun n => f n >>= k n) r ↔
      (∃ e, Ends out f (.error e) ∧ r = .error e) ∨
        ∃ a, Ends out f (.ok a) ∧ Ends out (fun n => k n a) r := by
  constructor
  · intro ⟨hr, n, hn⟩
    dsimp only at hn
    cases hx : f n with
    | error e =>
      rw [hx] at hn
      have he : r = .error e := hn.symm
      subst he
      exact Or.inl ⟨e, ⟨fun h => hr (by rw [Except.error.inj h]), n, hx⟩, rfl⟩
    | ok a =>
      rw [hx] at hn
      exact Or.inr ⟨a, ⟨nofun, n, hx⟩, hr, n, hn⟩
  · rintro (⟨e, ⟨he, n, hn⟩, rfl⟩ | ⟨a, ⟨_, n, hn⟩, hr, m, hm⟩)
    · refine ⟨fun h => he (by rw [Except.error.inj h]), n, ?_⟩
      dsimp only
      rw [hn]
      rfl
    · have hfn := below_of_le hf (Nat.le_max_left n m)
      have hkm := @below_of_le _ _ out (fun n => k n a) (hk · a) _ _ (Nat.le_max_right n m)
      rw [hn] at hfn
      dsimp only at hkm hm
      rw [hm] at hkm
      refine ⟨hr, max n m, ?_⟩
      dsimp only
      rw [← hfn.resolve_left nofun]
      exact (hkm.resolve_left hr).symm

end

/-- Where a loop stands when its test first holds, in so many turns. -/
def loop (test : α → Bool) (step : α → α) : Nat → α → Option α
  | 0, _ => none
  | turns + 1, a => if test a then some a else loop test step turns (step a)

/-- After `n` turns the test holds, and not before. -/
structure StopsAfter (test : α → Bool) (step : α → α) (a : α) (n : Nat) : Prop where
  stops : test (step^[n] a) = true
  first : ∀ k < n, test (step^[k] a) = false

section
variable {test : α → Bool} {step : α → α} {a b : α}

theorem loop_more {turns : Nat} (h : loop test step turns a = some b) :
    loop test step (turns + 1) a = some b := by
  induction turns generalizing a with
  | zero => cases h
  | succ turns ih =>
    rw [loop] at h ⊢
    split
    · rename_i ht
      rw [if_pos ht] at h
      exact h
    · rename_i ht
      rw [if_neg ht] at h
      exact ih h

theorem StopsAfter.zero (h : test a = true) : StopsAfter test step a 0 :=
  ⟨h, fun _ hk => absurd hk (Nat.not_lt_zero _)⟩

theorem stops_after_succ {n : Nat} (h : test a = false) :
    StopsAfter test step a (n + 1) ↔ StopsAfter test step (step a) n := by
  constructor
  · intro hs
    exact ⟨hs.stops, fun k hk => hs.first (k + 1) (Nat.succ_lt_succ hk)⟩
  · intro hs
    refine ⟨hs.stops, fun k hk => ?_⟩
    cases k with
    | zero => exact h
    | succ k => exact hs.first k (Nat.lt_of_succ_lt_succ hk)

/-- The loop returns where its test first holds, and only there. -/
theorem loop_iff : (∃ turns, loop test step turns a = some b) ↔
    ∃ n, StopsAfter test step a n ∧ b = step^[n] a := by
  constructor
  · intro ⟨turns, h⟩
    induction turns generalizing a with
    | zero => cases h
    | succ turns ih =>
      rw [loop] at h
      by_cases ht : test a = true
      · rw [if_pos ht] at h
        exact ⟨0, .zero ht, (Option.some.inj h).symm⟩
      · rw [if_neg ht] at h
        obtain ⟨n, hn, hb⟩ := ih h
        exact ⟨n + 1, (stops_after_succ (Bool.eq_false_iff.mpr ht)).mpr hn, hb⟩
  · intro ⟨n, hn, hb⟩
    subst hb
    induction n generalizing a with
    | zero =>
      have ht : test a = true := hn.stops
      exact ⟨1, if_pos ht⟩
    | succ n ih =>
      have ht : test a = false := hn.first 0 (Nat.succ_pos n)
      obtain ⟨turns, h⟩ := ih ((stops_after_succ ht).mp hn)
      refine ⟨turns + 1, ?_⟩
      rw [loop, if_neg (Bool.eq_false_iff.mp ht)]
      exact h

end

end Fuel
