import Mathlib

/-!
# Slices of a list

`IsSlice S a xs`: the list `xs` is what `S` holds from index `a` on. The index is an integer, so that
it can be computed from a reference point and a signed distance.

Results:
* `IsSlice.take`, `IsSlice.drop`: a slice cut at either end is a slice.
* `IsSlice.getElem?`: where its elements are in the list.
* `IsSlice.take_append`: the slice behind a prefix extends the prefix.
* `IsSlice.mono`, `IsSlice.snoc`, `IsSlice.append`: a list that grows at its end.
-/

/-- `xs` is what `S` holds from index `a` on. -/
def IsSlice {α : Type*} (S : List α) (a : ℤ) (xs : List α) : Prop :=
  ∃ n : ℕ, (n : ℤ) = a ∧ n + xs.length ≤ S.length ∧ xs = (S.drop n).take xs.length

namespace IsSlice

variable {α : Type*} {S xs ys : List α} {a : ℤ}

theorem le (h : IsSlice S a xs) : 0 ≤ a ∧ a + xs.length ≤ S.length := by
  obtain ⟨n, rfl, hn, -⟩ := h
  omega

theorem take (h : IsSlice S a xs) (m : ℕ) : IsSlice S a (xs.take m) := by
  obtain ⟨n, rfl, hn, hx⟩ := h
  refine ⟨n, rfl, by rw [List.length_take]; omega, ?_⟩
  rw [List.length_take, ← List.take_take, ← hx]

theorem drop (h : IsSlice S a xs) {m : ℕ} (hm : m ≤ xs.length) : IsSlice S (a + m) (xs.drop m) := by
  obtain ⟨n, rfl, hn, hx⟩ := h
  refine ⟨n + m, by push_cast; rfl, by rw [List.length_drop]; omega, ?_⟩
  rw [List.length_drop, ← List.drop_drop, ← List.drop_take, ← hx]

/-- The slice behind a prefix extends the prefix. -/
theorem take_append {k : ℕ} (h : IsSlice S k xs) : S.take k ++ xs = S.take (k + xs.length) := by
  obtain ⟨n, hn, -, hx⟩ := h
  obtain rfl : n = k := by exact_mod_cast hn
  rw [List.take_add, ← hx]

/-- What a slice holds at `i`. -/
theorem getElem? {k i : ℕ} (h : IsSlice S k xs) (hi : i < xs.length) : xs[i]? = S[k + i]? := by
  obtain ⟨n, hn, -, hx⟩ := h
  obtain rfl : n = k := by exact_mod_cast hn
  rw [hx, List.getElem?_take_of_lt hi, List.getElem?_drop]

theorem nil (h : 0 ≤ a) (h' : a ≤ S.length) : IsSlice S a [] :=
  ⟨a.toNat, by omega, by simp; omega, by simp⟩

theorem mono (h : IsSlice S a xs) (T : List α) : IsSlice (S ++ T) a xs := by
  obtain ⟨n, rfl, hn, hx⟩ := h
  refine ⟨n, rfl, ?_, ?_⟩
  · rw [List.length_append]
    omega
  · rw [List.drop_append_of_le_length (by omega), List.take_append_of_le_length, ← hx]
    rw [List.length_drop]
    omega

/-- What is put behind the stream lies behind it. -/
theorem snoc (S xs : List α) : IsSlice (S ++ xs) S.length xs :=
  ⟨S.length, rfl, by simp, by simp⟩

/-- Two slices that touch. -/
theorem append (h : IsSlice S a xs) (h' : IsSlice S (a + xs.length) ys) : IsSlice S a (xs ++ ys) := by
  obtain ⟨n, rfl, hn, hx⟩ := h
  obtain ⟨m, hm, hm', hy⟩ := h'
  obtain rfl : m = n + xs.length := by omega
  refine ⟨n, rfl, by rw [List.length_append]; omega, ?_⟩
  rw [List.length_append, List.take_add, ← hx, List.drop_drop, ← hy]

end IsSlice
