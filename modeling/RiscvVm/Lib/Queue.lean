import Mathlib.Data.Nat.ModEq

/-!
A bounded queue fed from a stream, and the ring of slots that holds one.
-/

namespace Queue

variable {α : Type}

/-- The elements in the queue, oldest first, and those still to come. -/
structure State (α : Type) where
  queued : List α
  pending : List α

inductive Op
  | offer (ready : Bool)
  | take
  | clear
  | skip
deriving DecidableEq

/-- An offer moves the next element into the queue if there is room for it;
what `take` removes is the second component. -/
def step (capacity : Nat) (s : State α) : Op → State α × Option α
  | .offer ready =>
    match ready, s.pending with
    | true, a :: rest =>
      if s.queued.length < capacity then ({ queued := s.queued ++ [a], pending := rest }, none)
      else (s, none)
    | _, _ => (s, none)
  | .take =>
    match s.queued with
    | [] => (s, none)
    | a :: rest => ({ s with queued := rest }, some a)
  | .clear => ({ s with queued := [] }, none)
  | .skip => (s, none)

theorem offer_full {capacity : Nat} {s : State α} (h : capacity ≤ s.queued.length)
    (ready : Bool) : step capacity s (.offer ready) = (s, none) := by
  unfold step
  dsimp only
  split
  · rw [if_neg (by omega)]
  · rfl

theorem offer_room {capacity : Nat} {queued : List α} (h : queued.length < capacity) (a : α)
    (rest : List α) : step capacity { queued := queued, pending := a :: rest } (.offer true) =
      ({ queued := queued ++ [a], pending := rest }, none) := if_pos h

/-- The state after some operations, and what they have taken. -/
def run (capacity : Nat) (s : State α) : List Op → State α × List α
  | [] => (s, [])
  | op :: ops =>
    let (s', taken) := step capacity s op
    let (last, rest) := run capacity s' ops
    (last, taken.toList ++ rest)

/-- Without a clear nothing is lost, doubled or put out of order. -/
theorem step_conserves (capacity : Nat) (s : State α) {op : Op} (h : op ≠ .clear) :
    s.queued ++ s.pending = (step capacity s op).2.toList ++
      ((step capacity s op).1.queued ++ (step capacity s op).1.pending) := by
  unfold step
  repeat' split
  all_goals simp_all

theorem run_conserves (capacity : Nat) (s : State α) {ops : List Op} (h : .clear ∉ ops) :
    s.queued ++ s.pending = (run capacity s ops).2 ++
      ((run capacity s ops).1.queued ++ (run capacity s ops).1.pending) := by
  induction ops generalizing s with
  | nil => rfl
  | cons op ops ih =>
    simp only [List.mem_cons, not_or] at h
    have hop := step_conserves capacity s (Ne.symm h.1)
    have hrest := ih (step capacity s op).1 h.2
    rw [hop, hrest, run, List.append_assoc]

/-- The elements held by a ring of `n` slots, from the oldest on. -/
def contents (n : Nat) (slots : Nat → α) (tail count : Nat) : List α :=
  (List.range count).map fun i => slots ((tail + i) % n)

@[simp] theorem length_contents (n : Nat) (slots : Nat → α) (tail count : Nat) :
    (contents n slots tail count).length = count := by
  simp [contents]

/-- The slot after the newest element is none of theirs as long as there is
room. -/
theorem contents_push {n count : Nat} (slots slots' : Nat → α) (tail : Nat) (h : count < n)
    (hother : ∀ i < n, i ≠ (tail + count) % n → slots' i = slots i) :
    contents n slots' tail (count + 1) =
      contents n slots tail count ++ [slots' ((tail + count) % n)] := by
  unfold contents
  rw [List.range_succ, List.map_append]
  refine congrArg₂ (· ++ ·) ?_ rfl
  apply List.map_congr_left
  intro i hi
  rw [List.mem_range] at hi
  refine hother _ (Nat.mod_lt _ (by omega)) ?_
  intro he
  have hmod : i % n = count % n := Nat.ModEq.add_left_cancel' tail he
  rw [Nat.mod_eq_of_lt (by omega), Nat.mod_eq_of_lt h] at hmod
  omega

theorem contents_pop (n : Nat) (slots : Nat → α) (tail count : Nat) :
    contents n slots tail (count + 1) =
      slots (tail % n) :: contents n slots ((tail + 1) % n) count := by
  unfold contents
  rw [List.range_succ_eq_map, List.map_cons, List.map_map]
  refine congrArg₂ List.cons rfl ?_
  apply List.map_congr_left
  intro i _
  have hmod : (tail + (i + 1)) % n = ((tail + 1) % n + i) % n := by
    rw [Nat.mod_add_mod]
    congr 1
    omega
  exact congrArg slots hmod

end Queue
