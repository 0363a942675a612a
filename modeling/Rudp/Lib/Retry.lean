import Mathlib

/-!
# Retry loops

A loop that moves a counter on until it finds a value that is not taken. `Retry.search` is the loop
with a bound on its turns.

Results:
* `Retry.search_eq_some`, `Retry.search_eq_none`: what the loop finds within that bound.
* `Retry.search_ne_none`: it finds a free value if it tries more values than are taken.
-/

namespace Retry

variable {α : Type*} {next : α → α} {taken : α → Prop} {n : ℕ} {x y : α}

/-- The value that the `k`-th retry finds: the `k` before it were taken. -/
def FreeAt (next : α → α) (taken : α → Prop) (x : α) (k : ℕ) : Prop :=
  (∀ i < k, taken (next^[i + 1] x)) ∧ ¬ taken (next^[k + 1] x)

theorem FreeAt.succ {k : ℕ} (ht : taken (next x)) :
    FreeAt next taken x (k + 1) ↔ FreeAt next taken (next x) k := by
  constructor
  · rintro ⟨h, hf⟩
    exact ⟨fun i hi => h (i + 1) (by omega), hf⟩
  · rintro ⟨h, hf⟩
    refine ⟨fun i hi => ?_, hf⟩
    cases i with
    | zero => exact ht
    | succ i => exact h i (by omega)

/-- Where the first free value is does not depend on the bound. -/
theorem FreeAt.unique {k k' : ℕ} (h : FreeAt next taken x k) (h' : FreeAt next taken x k') :
    k = k' := by
  rcases lt_trichotomy k k' with hlt | he | hlt
  · exact absurd (h'.1 k hlt) h.2
  · exact he
  · exact absurd (h.1 k' hlt) h'.2

variable (next taken) [DecidablePred taken]

/-- At most `n` turns of the loop from `x`: the first value behind `x` that is not taken. -/
def search : ℕ → α → Option α
  | 0, _ => none
  | n + 1, x => if taken (next x) then search n (next x) else some (next x)

variable {next taken}

theorem search_eq_some :
    search next taken n x = some y ↔ ∃ k < n, FreeAt next taken x k ∧ next^[k + 1] x = y := by
  induction n generalizing x with
  | zero => simp [search]
  | succ n ih =>
    rw [search]
    split
    · next ht =>
      rw [ih]
      constructor
      · rintro ⟨k, hk, hf, rfl⟩
        exact ⟨k + 1, by omega, (FreeAt.succ ht).mpr hf, rfl⟩
      · rintro ⟨k, hk, hf, rfl⟩
        cases k with
        | zero => exact absurd ht hf.2
        | succ k => exact ⟨k, by omega, (FreeAt.succ ht).mp hf, rfl⟩
    · next ht =>
      constructor
      · intro h
        exact ⟨0, by omega, ⟨by simp, ht⟩, Option.some.inj h⟩
      · rintro ⟨k, -, hf, rfl⟩
        cases k with
        | zero => rfl
        | succ k => exact absurd (hf.1 0 (by omega)) ht

theorem search_eq_none :
    search next taken n x = none ↔ ∀ i < n, taken (next^[i + 1] x) := by
  induction n generalizing x with
  | zero => simp [search]
  | succ n ih =>
    rw [search]
    split
    · next ht =>
      rw [ih]
      constructor
      · intro h i hi
        cases i with
        | zero => exact ht
        | succ i => exact h i (by omega)
      · intro h i hi
        exact h (i + 1) (by omega)
    · next ht =>
      constructor
      · intro h
        cases h
      · intro h
        exact absurd (h 0 (by omega)) ht

/-- Fewer values are taken than the loop tries. -/
theorem search_ne_none {T : Finset α} (hT : ∀ y, taken y → y ∈ T) (hn : T.card < n)
    (hinj : ∀ i < n, ∀ j < n, next^[i + 1] x = next^[j + 1] x → i = j) :
    search next taken n x ≠ none := by
  intro h
  rw [search_eq_none] at h
  have hcard : (Finset.range n).card ≤ T.card := by
    refine Finset.card_le_card_of_injOn (fun i => next^[i + 1] x) ?_ ?_
    · intro i hi
      exact hT _ (h i (Finset.mem_range.mp hi))
    · intro i hi j hj he
      exact hinj i (Finset.mem_range.mp hi) j (Finset.mem_range.mp hj) he
  rw [Finset.card_range] at hcard
  omega

end Retry
