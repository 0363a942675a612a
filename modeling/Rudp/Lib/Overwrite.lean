import Mathlib

/-!
# Overwriting a slice of a list

`overwrite l off s` is the list `l` with `s` written from index `off` on.

Results:
* `overwrite_append_left`, `overwrite_append_right`: an overwrite inside one part of a list that is
  put together from two.
* `overwrite_append_both`: an overwrite that runs from the one part into the other.
* `overwrite_overwrite`: two overwrites, the second behind the first, are one.
-/

namespace Overwrite

variable {α : Type*}

/-- `l` with `s` in place of what it holds from index `off` on. -/
def overwrite (l : List α) (off : ℕ) (s : List α) : List α :=
  l.take off ++ s ++ l.drop (off + s.length)

@[simp] theorem overwrite_nil (l : List α) (off : ℕ) : overwrite l off [] = l := by
  simp [overwrite]

theorem length_overwrite {l s : List α} {off : ℕ} (h : off + s.length ≤ l.length) :
    (overwrite l off s).length = l.length := by
  simp only [overwrite, List.length_append, List.length_take, List.length_drop]
  omega

theorem overwrite_zero (l s : List α) : overwrite l 0 s = s ++ l.drop s.length := by
  simp [overwrite]

theorem overwrite_append_left {a s : List α} (b : List α) {off : ℕ}
    (h : off + s.length ≤ a.length) : overwrite (a ++ b) off s = overwrite a off s ++ b := by
  have htake : (a ++ b).take off = a.take off := List.take_append_of_le_length (by omega)
  have hdrop : (a ++ b).drop (off + s.length) = a.drop (off + s.length) ++ b :=
    List.drop_append_of_le_length h
  unfold overwrite
  rw [htake, hdrop, List.append_assoc, List.append_assoc, List.append_assoc]

theorem overwrite_append_right (a b s : List α) (off : ℕ) :
    overwrite (a ++ b) (a.length + off) s = a ++ overwrite b off s := by
  have hdrop : (a ++ b).drop (a.length + off + s.length) = b.drop (off + s.length) := by
    rw [Nat.add_assoc, List.drop_length_add_append]
  unfold overwrite
  rw [List.take_length_add_append, hdrop, List.append_assoc, List.append_assoc, List.append_assoc]

/-- What is written behind a slice just written extends it. -/
theorem overwrite_overwrite {l s : List α} {off : ℕ} (h : off + s.length ≤ l.length)
    (s' : List α) :
    overwrite (overwrite l off s) (off + s.length) s' = overwrite l off (s ++ s') := by
  have hlen : (l.take off ++ s).length = off + s.length := by
    rw [List.length_append, List.length_take, Nat.min_eq_left (by omega)]
  calc overwrite (overwrite l off s) (off + s.length) s'
      = overwrite (l.take off ++ s ++ l.drop (off + s.length)) ((l.take off ++ s).length + 0) s' := by
        rw [hlen, Nat.add_zero]
        rfl
    _ = l.take off ++ s ++ (s' ++ l.drop (off + s.length + s'.length)) := by
        rw [overwrite_append_right, overwrite_zero, List.drop_drop]
    _ = overwrite l off (s ++ s') := by
        rw [overwrite, List.length_append, Nat.add_assoc]
        simp only [List.append_assoc]

/-- A slice that runs from the first part into the second. -/
theorem overwrite_append_both {a s s' : List α} (b : List α) (h : s.length ≤ a.length)
    (h' : s' = [] ∨ s.length = a.length) :
    overwrite (a ++ b) 0 (s ++ s') = overwrite a 0 s ++ overwrite b 0 s' := by
  have hs : 0 + s.length ≤ a.length := by omega
  have hab : 0 + s.length ≤ (a ++ b).length := by
    rw [List.length_append]
    omega
  rw [← overwrite_overwrite hab, overwrite_append_left b hs]
  rcases h' with rfl | hlen
  · rw [overwrite_nil, overwrite_nil]
  · have hoff : 0 + s.length = (overwrite a 0 s).length + 0 := by
      rw [length_overwrite hs]
      omega
    rw [hoff, overwrite_append_right]

end Overwrite
